/-!
The bounds of words of 64 bits.
-/

namespace RuleTable

/-- One more than the greatest unsigned word: 2 to the power 64. -/
def unsignedBound : Nat := 18446744073709551616

/-- One more than the greatest signed word: 2 to the power 63. The least one is its negative. -/
def signedBound : Nat := 9223372036854775808

end RuleTable
