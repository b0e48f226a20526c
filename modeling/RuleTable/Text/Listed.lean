/-!
Lists in text: integers between commas, and words between blanks inside brackets.
-/

namespace RuleTable.Text

def commas (xs : List Int) : String := ",".intercalate (xs.map toString)

def numerals (xs : List Nat) : String := commas (xs.map Int.ofNat)

/-- The integers between braces, as a literal set is written. -/
def braced (xs : List Int) : String := "\x7b" ++ commas xs ++ "\x7d"

def bracketed (ws : List String) : String := "[" ++ " ".intercalate ws ++ "]"

end RuleTable.Text
