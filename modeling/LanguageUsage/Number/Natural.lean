/-!
# Powers and sums of whole numbers

The powers and sums of the model are those whole numbers come with. A library of algebra reads both in a
second way, through monoids; wherever the model is used, the first way goes before it.
-/

-- also where the exponent is a literal
attribute [default_instance (20000)] instPowNat

attribute [instance (2000)] instPowNat

namespace LanguageUsage

attribute [scoped instance (2000)] Zero.ofOfNat0

end LanguageUsage
