import Aurion.Ledger.HardCap
import Aurion.Ledger.Spending

/-!
# Where the value goes

The coinbases create all value, and what they created is either unspent, was paid
in fees, which no coinbase may claim, or lay in an output that was written over
before it was spent.  The last happens to repeated coinbases only.
-/

namespace Aurion

open Foundation

section Steps

end Steps

section Accounts

/-- What the transactions of a block take and do not give. -/
def Block.fees (block : Block) (storage : StorageEngine) : Nat :=
  (block.spending.map (Transaction.fee storage.lookup)).sum

variable [Crypto]

end Accounts

section Overwriting

variable [Crypto]

end Overwriting

section Runs

variable [Crypto]

end Runs

section Sample

open Sample

attribute [local instance] Sample.lockedCrypto

end Sample

end Aurion
