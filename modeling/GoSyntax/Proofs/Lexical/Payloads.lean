import GoSyntax.Proofs.Lexical.Printing

/-!
# What tokens carry

A name or a value that a token carries is used by all later stages as it is, so it has to be right whatever stands in the source. A name is
one that can be written and is no keyword. A value is one that a literal can denote, also where the literal has a fault and its value is the
best that could be made of it: numbers are not negative, runes are bytes or characters, and there is no missing value.
-/

namespace GoSyntax

namespace Constant

end Constant

end GoSyntax
