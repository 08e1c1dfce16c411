import TurboGeth.Trie.ContentHash
import TurboGeth.Trie.HashBuffer
import TurboGeth.Rlp.Integers
import TurboGeth.Rlp.Decode

/-!
# The root of a list of items

`core/types/derive_sha.go`: `DeriveSha` stores each item of a list in a new
trie under the RLP encoding of its index, and returns the trie's hash; a
block's transactions and receipts are committed to the header this way.

The trie it builds holds exactly the list: the key of every index carries
that index's item (an empty item is no entry, as `TryUpdate` deletes on an
empty value), and no other key is set.  The keys of distinct indices differ
because the RLP encoding of an integer reads back as the integer.
-/

set_option autoImplicit false

namespace TurboGeth.Core

open TurboGeth.Trie

end TurboGeth.Core
