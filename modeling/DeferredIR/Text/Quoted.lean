/-!
# Quoted text

A text between double quotes, each of its characters written by a rule of the format.
-/

namespace DeferredIR.Text

/-- `s` between double quotes, each character written as `escape` says. -/
def quoteWith (escape : Char → List Char) (s : String) : String :=
  String.ofList ('"' :: s.toList.flatMap escape ++ ['"'])

@[simp] theorem toList_quoteWith (escape : Char → List Char) (s : String) :
    (quoteWith escape s).toList = '"' :: s.toList.flatMap escape ++ ['"'] := by
  simp [quoteWith]

end DeferredIR.Text
