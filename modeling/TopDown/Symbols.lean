import TopDown.Text.Blank
import TopDown.Text.Case

/-!
# Lists of symbols

The symbols of a batch are given as one text, set apart by commas. `TopDown.parseSymbols` trims them,
puts them in upper case and keeps their order. A symbol has only ASCII letters and digits and occurs
once.
-/

namespace TopDown

/-- What is wrong with a list of symbols. -/
inductive SymbolError where
  /-- There is nothing between two commas. -/
  | emptyToken
  /-- A symbol occurs twice. -/
  | duplicate (symbol : String)
  /-- A symbol has other characters than ASCII letters and digits. -/
  | invalid (symbol : String)
  deriving DecidableEq, Repr

/-- The wording of the mistake. -/
def SymbolError.message : SymbolError → String
  | .emptyToken => "empty token in symbol list"
  | .duplicate symbol => "duplicate symbol: " ++ symbol
  | .invalid symbol =>
    "invalid symbol '" ++ symbol ++ "': only ASCII letters and digits are allowed"

/-- The symbol that a token spells: without blanks around it and in upper case. -/
def normalSymbol (token : String) : String :=
  Text.upper (Text.trim token)

/-- The symbol has only ASCII letters and digits. -/
def isPlainSymbol (symbol : String) : Bool :=
  symbol.toList.all Char.isAlphanum

/-- Reads the tokens after those that gave the symbols `seen`, latest first. -/
def parseTokens (seen : List String) : List String → Except SymbolError (List String)
  | [] => .ok []
  | token :: rest =>
    if Text.isAllBlank token then .error .emptyToken
    else
      let symbol := normalSymbol token
      if !isPlainSymbol symbol then .error (.invalid symbol)
      else if seen.contains symbol then .error (.duplicate symbol)
      else (parseTokens (symbol :: seen) rest).map (symbol :: ·)

/-- The symbols of a list. -/
def parseSymbols (s : String) : Except SymbolError (List String) :=
  parseTokens [] (Text.pieces ',' s)

end TopDown
