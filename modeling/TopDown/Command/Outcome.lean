import TopDown.Fault
import TopDown.Json.Writer

/-!
# What a command leaves

A command prints lines or a document, complains on the side, and ends with a code.
-/

namespace TopDown.Command

/-- What a command prints. -/
inductive Printed where
  /-- Lines. -/
  | lines (ls : List String)
  /-- A document. -/
  | document (v : Json)

/-- What is printed, as a text. -/
def Printed.text : Printed → String
  | .lines ls => String.join (ls.map (· ++ "\n"))
  | .document v => v.pretty ++ "\n"

/-- What a command leaves. -/
structure Outcome where
  /-- The code with which the program ends. -/
  exitCode : Nat
  /-- What it prints. -/
  printed : Printed
  /-- What it says on the side. -/
  remarks : List String

namespace Outcome

/-- What is said on the side, as a text. -/
def remarksText (o : Outcome) : String :=
  String.join (o.remarks.map (· ++ "\n"))

/-- The remark about a fault. -/
def remarkOn (f : Fault) : String :=
  "error: " ++ f.message

/-- A command that ends with a fault, after it has made some remarks. -/
def ofFault (remarks : List String) (f : Fault) : Outcome :=
  ⟨f.exitCode, .lines [], remarks ++ [remarkOn f]⟩

/-- A command that succeeds. -/
def success (printed : Printed) (remarks : List String) : Outcome :=
  ⟨0, printed, remarks⟩

end Outcome

end TopDown.Command
