import TopDown.Table

/-!
# Circles of references

Named rules refer to each other. A circle is a list of different rules of which each refers to the
next and the last to the first; no book can be made of rules that have one.

`TopDown.circles` searches the references depth first. A rule on the way down is *entered*, one that
the search has left is *done*. Meeting an entered rule closes a circle, and circles of the same rules
are reported once.
-/

namespace TopDown

/-- Which rules each rule refers to. -/
abbrev References := Table (List String)

/-- How far a search has come. -/
structure CircleSearch where
  /-- The rules that have been left. -/
  done : List String
  /-- The circles that have been found, each without its closing rule. -/
  found : List (List String)

namespace CircleSearch

/-- The circles have the same rules. -/
def sameRules (a b : List String) : Bool :=
  a.all b.contains && b.all a.contains

/-- The search with one more circle, unless one of the same rules has been found. -/
def report (s : CircleSearch) (circle : List String) : CircleSearch :=
  if s.found.any (sameRules circle) then s else { s with found := s.found ++ [circle] }

/-- The search after a rule has been left. -/
def leave (s : CircleSearch) (name : String) : CircleSearch :=
  { s with done := name :: s.done }

end CircleSearch

/-- Searches from a rule, with the entered rules from the first to the last. The first argument
counts the rules that are not entered. -/
def searchCircles (refs : References) :
    Nat → List String → String → CircleSearch → CircleSearch
  | left, entered, name, s =>
    match entered.idxOf? name with
    | some i => s.report (entered.drop i)
    | none =>
      if s.done.contains name then s
      else
        match refs.lookup name, left with
        | some next, left + 1 =>
          ((next.filter refs.has).foldl
            (fun s r => searchCircles refs left (entered ++ [name]) r s) s).leave name
        | _, _ => s

/-- The circles of some references, in the order of their discovery from the first rule on. -/
def circles (refs : References) : List (List String) :=
  (refs.names.foldl (fun s name => searchCircles refs refs.length [] name s) ⟨[], []⟩).found

end TopDown
