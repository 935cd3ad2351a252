import DeferredIR.Handle
import DeferredIR.Arity

/-!
# Errors

An edit is refused for an `EditError` and a graph is found damaged by an `Inconsistency`. A `Fault`
is a read that the graph or its type table cannot answer: checked edits never meet one, but a graph
whose fields were overwritten can.
-/

namespace DeferredIR

/-- Why an edit is refused. -/
inductive EditError where
  | emptyTypeName
  | operandCount (mnemonic : String) (expected : Arity) (found : Nat)
  | keywordCount (names values : Nat)
  | keywordStart (start operands : Nat)
  | repeatedKeyword (name : String)
  | emptyKeyword
  | unknownValue (value : ValueId)
  | unknownFunction (func : FuncId)
  | foreignOperand (value : ValueId) (owner func : FuncId)
  | deadValue (value : ValueId)
  | foreignType (type : TypeId)
  | alreadyTyped (value : ValueId)
  | undefinedAssignment (value : ValueId)
deriving DecidableEq, Repr

def EditError.message : EditError → String
  | emptyTypeName => "type name must not be empty"
  | operandCount mnemonic expected found =>
      "`" ++ mnemonic ++ "` expects " ++ expected.text ++ " operands, got " ++ found.repr
  | keywordCount names values =>
      "call has " ++ names.repr ++ " keyword names but " ++ values.repr ++ " keyword values"
  | keywordStart start operands =>
      "keyword section starts at operand " ++ start.repr ++ ", but the call has " ++
        operands.repr ++ " operands"
  | repeatedKeyword name => "keyword argument `" ++ name ++ "` repeated"
  | emptyKeyword => "keyword argument name must not be empty"
  | unknownValue value => "unknown value " ++ value.text
  | unknownFunction func => "unknown function " ++ func.text
  | foreignOperand value owner func =>
      value.text ++ " belongs to " ++ owner.text ++ " and cannot be read from " ++ func.text
  | deadValue value => value.text ++ " was folded away"
  | foreignType type =>
      "type id " ++ type.index.repr ++ " does not belong to this module's registry"
  | alreadyTyped value => "type of " ++ value.text ++ " was already assigned"
  | undefinedAssignment value => "cannot assign the undefined type to " ++ value.text

/-- What is wrong with a graph. -/
inductive Inconsistency where
  | argumentOutOfRange (node : NodeId) (index arity : Nat)
  | argumentType (node : NodeId) (index : Nat) (expected found : String)
  | danglingOperand (node : NodeId) (slot : Nat) (value : ValueId)
  | foreignOperand (node : NodeId) (slot : Nat) (value : ValueId)
  | deadOperand (node : NodeId) (slot : Nat) (value : ValueId)
  | unrecordedUse (node : NodeId) (slot : Nat) (value : ValueId)
  | staleUse (value : ValueId) (node : NodeId)
  | brokenDefinition (value : ValueId)
  | malformedOperands (node : NodeId) (expected : Arity) (found : Nat)
deriving DecidableEq, Repr

def Inconsistency.message : Inconsistency → String
  | argumentOutOfRange node index arity =>
      "invalid function args: " ++ node.text ++ " reads argument " ++ index.repr ++
        " of a function with " ++ arity.repr ++ " arguments"
  | argumentType node index expected found =>
      "invalid function args: " ++ node.text ++ " has type " ++ found ++ " but argument " ++
        index.repr ++ " is " ++ expected
  | danglingOperand node slot value =>
      node.text ++ " operand " ++ slot.repr ++ " refers to unknown value " ++ value.text
  | foreignOperand node slot value =>
      node.text ++ " operand " ++ slot.repr ++ " reads " ++ value.text ++ " from another function"
  | deadOperand node slot value =>
      node.text ++ " operand " ++ slot.repr ++ " reads " ++ value.text ++
        ", whose definition was folded away"
  | unrecordedUse node slot value =>
      node.text ++ " operand " ++ slot.repr ++ " reads " ++ value.text ++
        ", which does not record the use"
  | staleUse value node => value.text ++ " records a use by " ++ node.text ++ " that does not exist"
  | brokenDefinition value => value.text ++ " is not defined where it claims to be"
  | malformedOperands node expected found =>
      node.text ++ " has " ++ found.repr ++ " operands, its kind expects " ++ expected.text

/-- Why a text is refused. -/
inductive ParseError where
  | unknownType (text : String)
deriving DecidableEq, Repr

def ParseError.message : ParseError → String
  | unknownType text => "unknown type: `" ++ text ++ "`"

/-- A read that has no answer. -/
inductive Fault where
  /-- A position outside an arena or an operand list. -/
  | outOfRange
  /-- A type handle of another table. -/
  | foreignType (type : TypeId)
deriving DecidableEq, Repr

/-- A position outside its list is reported without a message. -/
def Fault.message? : Fault → Option String
  | outOfRange => none
  | foreignType type => some <|
      "TypeRegistry: type id " ++ type.index.repr ++
        " not found (handle belongs to another registry)"

/-- How a call of this library can fail. -/
inductive Error where
  | edit (e : EditError)
  | inconsistent (e : Inconsistency)
  | parse (e : ParseError)
  | fault (e : Fault)
deriving DecidableEq, Repr

def Error.message? : Error → Option String
  | edit e => some e.message
  | inconsistent e => some e.message
  | parse e => some e.message
  | fault e => e.message?

/-- A read that can only fault may be used where other errors are possible. -/
instance : MonadLift (Except Fault) (Except Error) := ⟨Except.mapError Error.fault⟩

@[simp] theorem liftM_ok {α : Type} (a : α) :
    (liftM (Except.ok a : Except Fault α) : Except Error α) = .ok a := rfl

@[simp] theorem liftM_error {α : Type} (e : Fault) :
    (liftM (Except.error e : Except Fault α) : Except Error α) = .error (.fault e) := rfl

end DeferredIR
