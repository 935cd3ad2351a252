import DeferredIR.Export
import DeferredIR.Proofs.Json
import DeferredIR.Proofs.NoFaults

/-!
# What the export tells of a graph

The export of a graph is the text of a snapshot: its functions with all their nodes, where each
value goes with the name of its type. The JSON form of a snapshot keeps all of it: the tag of an
opcode says which data follow, no member has the key of another, and only a type without a name
could be written like the undefined one. So two graphs have one export exactly if they have one
snapshot, but for constants that JSON cannot write.
-/

namespace DeferredIR

/-! ## Literals -/

namespace Literal

mutual

/-- The literal with the not-a-number in the place of each float that is not finite. -/
def flat : Literal → Literal
  | float (.finite negative rank) => float (.finite negative rank)
  | float (.infinity _) | float .nan => float .nan
  | tuple items => tuple (flats items)
  | l => l
termination_by structural l => l

def flats : List Literal → List Literal
  | [] => []
  | l :: items => flat l :: flats items
termination_by structural items => items

end

mutual

theorem toJson_flat : ∀ l : Literal, l.flat.toJson.flat = l.toJson.flat
  | none | bool _ | int _ | float (.finite ..) | float (.infinity _) | float .nan | str _ => rfl
  | tuple items => by
      have hitems := toJsons_flats items
      simp only [flat, toJson, Json.flat, Json.flatMembers, Json.flatMember, hitems]
termination_by structural l => l

theorem toJsons_flats : ∀ items : List Literal,
    Json.flatItems (toJsons (flats items)) = Json.flatItems (toJsons items)
  | [] => rfl
  | l :: items => by
      have hl := toJson_flat l
      have hitems := toJsons_flats items
      simp only [flats, toJsons, Json.flatItems, hl, hitems]
termination_by structural items => items

end

theorem flat_eq_of_float {x : Binary64} {l : Literal}
    (h : (float x).toJson.flat = l.toJson.flat) : (float x).flat = l.flat := by
  cases l with
  | float y =>
    cases x <;> cases y <;>
      simp_all [toJson, flat]
  | _ => cases x <;> simp [toJson] at h

/-- A literal that holds no other literals is told from all others. -/
theorem flat_eq_of_not_tuple {l l' : Literal} (hl : ∀ items, l ≠ tuple items)
    (h : l.toJson.flat = l'.toJson.flat) : l.flat = l'.flat := by
  cases l' with
  | float y => exact (flat_eq_of_float h.symm).symm
  | _ =>
    cases l with
    | tuple items => exact absurd rfl (hl items)
    | float x => exact flat_eq_of_float h
    | _ => simp_all [toJson, Int64.toInt_inj]

mutual

/-- The JSON form of a literal tells it from the others. -/
theorem flat_eq_of_toJson : ∀ l l' : Literal, l.toJson.flat = l'.toJson.flat → l.flat = l'.flat
  | tuple items, tuple items', h => by
      have hitems := flats_eq_of_toJsons items items'
      simp only [toJson, Json.flat, Json.flatMembers, Json.flatMember, Json.obj.injEq,
        List.cons.injEq, Prod.mk.injEq, Json.arr.injEq, and_true, true_and] at h
      rw [flat, flat, hitems h]
  | none, _, h | bool _, _, h | int _, _, h | float _, _, h | str _, _, h =>
      flat_eq_of_not_tuple (by simp) h
  | l, none, h | l, bool _, h | l, int _, h | l, float _, h | l, str _, h =>
      (flat_eq_of_not_tuple (by simp) h.symm).symm
termination_by structural l => l

theorem flats_eq_of_toJsons : ∀ items items' : List Literal,
    Json.flatItems (toJsons items) = Json.flatItems (toJsons items') → flats items = flats items'
  | [], [], _ => rfl
  | l :: items, l' :: items', h => by
      have hl := flat_eq_of_toJson l l'
      have hitems := flats_eq_of_toJsons items items'
      rw [toJsons, toJsons, Json.flatItems, Json.flatItems, List.cons.injEq] at h
      rw [flats, flats, hl h.1, hitems h.2]
  | [], _ :: _, h | _ :: _, [], h => by cases h
termination_by structural items => items

end

theorem toJson_flat_inj (l l' : Literal) : l.toJson.flat = l'.toJson.flat ↔ l.flat = l'.flat :=
  ⟨flat_eq_of_toJson l l', fun h => by rw [← toJson_flat l, h, toJson_flat l']⟩

end Literal

/-! ## Opcodes -/

namespace Opcode

/-- The opcode with its literal as far as JSON shows it. -/
def flat : Opcode → Opcode
  | const value => const value.flat
  | k => k

/-- The members of an opcode tell it from the others, and where they end. -/
theorem flatMembers_inj {k k' : Opcode} {rest rest' : List (String × Json)} :
    Json.flatMembers k.members ++ rest = Json.flatMembers k'.members ++ rest' ↔
      k.flat = k'.flat ∧ rest = rest' := by
  have hkeywords {keywords keywords' : List String} :
      Json.flatItems (keywords.map .str) = Json.flatItems (keywords'.map .str) ↔
        keywords = keywords' :=
    Json.flatItems_map_inj_self fun s s' => by simp
  -- Opcodes with different tags differ in their first members.
  cases k <;> cases k' <;>
    simp [members, tag, mnemonic, flat, Literal.toJson_flat_inj, hkeywords, and_assoc]

end Opcode

/-! ## Snapshots -/

/-- What the export tells of a value. No type has the empty name. -/
structure ValueSnapshot where
  id : ValueId
  type : TypeName
  type_ne : type ≠ .named ""

structure NodeSnapshot where
  id : NodeId
  opcode : Opcode
  operands : List ValueId
  result : ValueSnapshot
  dead : Bool

structure FuncSnapshot where
  name : String
  formals : List ValueSnapshot
  body : List NodeSnapshot

namespace ValueSnapshot

def toJson (x : ValueSnapshot) : Json :=
  .obj [("id", .int x.id.index), ("type", .str x.type.text)]

theorem toJson_flat_inj (x x' : ValueSnapshot) : x.toJson.flat = x'.toJson.flat ↔ x = x' := by
  obtain ⟨⟨i⟩, type, hne⟩ := x
  obtain ⟨⟨i'⟩, type', hne'⟩ := x'
  simp [toJson, TypeName.text_inj hne hne']

end ValueSnapshot

namespace NodeSnapshot

def toJson (x : NodeSnapshot) : Json :=
  .obj <| ("id", .int x.id.index) :: x.opcode.members ++
    [("operands", .arr (x.operands.map fun v => .int v.index)), ("result", x.result.toJson)] ++
    if x.dead then [("dead", .bool true)] else []

/-- The node with its literal as far as JSON shows it. -/
def flat (x : NodeSnapshot) : NodeSnapshot := { x with opcode := x.opcode.flat }

theorem toJson_flat_inj (x x' : NodeSnapshot) :
    x.toJson.flat = x'.toJson.flat ↔ x.flat = x'.flat := by
  have hoperands {vs vs' : List ValueId} :
      Json.flatItems (vs.map fun v => .int v.index) =
        Json.flatItems (vs'.map fun v => .int v.index) ↔ vs = vs' :=
    Json.flatItems_map_inj_self fun ⟨i⟩ ⟨i'⟩ => by simp
  have hdead (b b' : Bool) :
      Json.flatMembers (if b then [("dead", .bool true)] else []) =
        Json.flatMembers (if b' then [("dead", .bool true)] else []) ↔ b = b' := by
    cases b <;> cases b' <;> simp
  obtain ⟨⟨i⟩, k, operands, result, dead⟩ := x
  obtain ⟨⟨i'⟩, k', operands', result', dead'⟩ := x'
  simp [toJson, flat, Json.flatMembers_append, Opcode.flatMembers_inj,
    ValueSnapshot.toJson_flat_inj, hoperands, hdead]

end NodeSnapshot

namespace FuncSnapshot

def toJson (f : FuncSnapshot) : Json :=
  .obj [("name", .str f.name), ("args", .arr (f.formals.map ValueSnapshot.toJson)),
    ("ops", .arr (f.body.map NodeSnapshot.toJson))]

/-- The function with the literals of its nodes as far as JSON shows them. -/
def flat (f : FuncSnapshot) : FuncSnapshot := { f with body := f.body.map NodeSnapshot.flat }

theorem toJson_flat_inj (f f' : FuncSnapshot) :
    f.toJson.flat = f'.toJson.flat ↔ f.flat = f'.flat := by
  simp [toJson, flat, Json.flatItems_map_inj_self ValueSnapshot.toJson_flat_inj,
    Json.flatItems_map_inj NodeSnapshot.toJson_flat_inj]

end FuncSnapshot

namespace Graph

open Check

variable {g g' : Graph}

def valueSnapshot (g : Graph) (v : ValueId) : Except Fault ValueSnapshot := do
  let value ← g.value v
  match htype : g.types.name value.type with
  | .ok type => return ⟨v, type, TypeTable.ne_named_empty (TypeTable.name_eq_ok.mp htype)⟩
  | .error e => throw e

def nodeSnapshot (g : Graph) (n : NodeId) : Except Fault NodeSnapshot := do
  let node ← g.node n
  return ⟨n, node.opcode, node.operands, ← g.valueSnapshot node.result, node.dead⟩

def funcSnapshot (g : Graph) (f : Func) : Except Fault FuncSnapshot := do
  let formals ← f.formals.mapM g.valueSnapshot
  return ⟨f.name, formals, ← f.body.mapM g.nodeSnapshot⟩

/-- The functions of the graph with their nodes. -/
def snapshots (g : Graph) : Except Fault (List FuncSnapshot) :=
  g.functions.toList.mapM g.funcSnapshot

theorem valueJson_eq (g : Graph) (v : ValueId) :
    g.valueJson v = ValueSnapshot.toJson <$> g.valueSnapshot v := by
  rw [valueJson, valueSnapshot, typeText]
  cases g.value v with
  | error e => rfl
  | ok value =>
    rw [ok_bind, ok_bind, TypeTable.text]
    split
    next type htype => simp only [htype]; rfl
    next e he => simp only [he]; rfl

theorem nodeJson_eq (g : Graph) (n : NodeId) :
    g.nodeJson n = NodeSnapshot.toJson <$> g.nodeSnapshot n := by
  simp only [nodeJson, nodeSnapshot, valueJson_eq, map_bind, bind_map_left, map_pure]
  rfl

theorem funcJson_eq (g : Graph) (f : Func) :
    g.funcJson f = FuncSnapshot.toJson <$> g.funcSnapshot f := by
  simp only [funcJson, funcSnapshot, mapM_eq_map_mapM g.valueJson_eq,
    mapM_eq_map_mapM g.nodeJson_eq, map_bind, bind_map_left, map_pure]
  rfl

theorem toJson_eq (g : Graph) :
    g.toJson =
      (fun fs => .obj [("functions", .arr (fs.map FuncSnapshot.toJson))]) <$> g.snapshots := by
  simp only [toJson, snapshots, mapM_eq_map_mapM g.funcJson_eq, bind_map_left]
  rfl

theorem jsonText_eq_ok {fs : List FuncSnapshot} (h : g.snapshots = .ok fs) :
    g.jsonText = .ok (Json.obj [("functions", .arr (fs.map FuncSnapshot.toJson))]).pretty := by
  rw [jsonText, toJson_eq, h]
  rfl

theorem Reachable.exists_snapshots (h : g.Reachable) : ∃ fs, g.snapshots = .ok fs := by
  obtain ⟨text, htext⟩ := h.wellFormed.exists_jsonText h.typed h.listsNodes
  obtain ⟨json, hjson, -⟩ := map_eq_ok.mp htext
  rw [toJson_eq] at hjson
  obtain ⟨fs, hfs, -⟩ := map_eq_ok.mp hjson
  exact ⟨fs, hfs⟩

/-- Graphs have one export exactly if they have one snapshot, up to what JSON cannot write. The type
tables of the two may number the same names differently. -/
theorem Reachable.jsonText_eq_iff (h : g.Reachable) (h' : g'.Reachable) :
    ∃ fs fs' text text', g.snapshots = .ok fs ∧ g'.snapshots = .ok fs' ∧
      g.jsonText = .ok text ∧ g'.jsonText = .ok text' ∧
      (text = text' ↔ fs.map FuncSnapshot.flat = fs'.map FuncSnapshot.flat) := by
  obtain ⟨fs, hfs⟩ := h.exists_snapshots
  obtain ⟨fs', hfs'⟩ := h'.exists_snapshots
  refine ⟨fs, fs', _, _, hfs, hfs', jsonText_eq_ok hfs, jsonText_eq_ok hfs', ?_⟩
  simp [Json.pretty_eq_iff, Json.flatItems_map_inj FuncSnapshot.toJson_flat_inj]

/-- Over tables that number the types of the graphs differently, with constants that JSON cannot
tell apart and a cast that has been folded. -/
theorem jsonText_eq_iff_of_infinity :
    let script (t : TypeId) (x : Binary64) : List Command :=
      [.internType "int", .addFunc "f" [t], .build ⟨0⟩ {} (.const (.tuple [.float x, .str "é"])),
        .build ⟨0⟩ {} (.cast ⟨0⟩ t), .foldAll {}]
    let g := (ofTable { names := ["float", "int"] }).after (script ⟨2⟩ .nan)
    let g' := (ofTable {}).after (script ⟨1⟩ (.infinity true))
    g.Reachable ∧ g'.Reachable ∧ ∃ fs fs' text text', g.snapshots = .ok fs ∧
      g'.snapshots = .ok fs' ∧ g.jsonText = .ok text ∧ g'.jsonText = .ok text' ∧
      (text = text' ↔ fs.map FuncSnapshot.flat = fs'.map FuncSnapshot.flat) ∧ text = text' := by
  intro script g g'
  have hg : g.Reachable := ⟨_, _, rfl⟩
  have hg' : g'.Reachable := ⟨_, _, rfl⟩
  obtain ⟨fs, fs', text, text', hfs, hfs', htext, htext', hiff⟩ := hg.jsonText_eq_iff hg'
  have hsame : g.jsonText = g'.jsonText := by decide +kernel
  exact ⟨hg, hg', fs, fs', text, text', hfs, hfs', htext, htext', hiff,
    Except.ok.inj (htext.symm.trans (hsame.trans htext'))⟩

end Graph

end DeferredIR
