import Arqma.Lib.Buckets
import Arqma.Lib.Word64

/-!
# The transaction pool

`tx_memory_pool` (`tx_pool.cpp`): the pool's tables in the database, the key images its
transactions spend (`m_spent_key_images`), its transactions sorted by fee and arrival
(`m_txs_by_fee_and_receive_time`) and their total weight (`m_txpool_weight`); `add_tx`,
which checks a transaction and files it in all four, `take_tx`, which takes one out
for a block, and `prune`, which drops expired non-standard transactions and, while the
pool weighs too much, the cheapest.

## The model

A transaction is what the pool reads of it: its version, its inputs and whether it is a
transfer. What `add_tx` asks of the blockchain (`check_fee`, `check_tx_outputs`,
`check_tx_inputs`), `get_tx_miner_fee`, `have_duplicated_non_standard_tx`, the fee per
byte (a `double`, of a linearly ordered type `φ`) and the parse of a blob are the
parameters of `TxPoolEnv`; the clock is an argument. `m_spent_key_images` is a vector of
key images with their sets of ids (the order of an unordered map does not matter), the
pool tables a vector of ids with their meta and blob, and `m_txs_by_fee_and_receive_time`
a vector kept in the order of `txCompare`.

A `LockedTXN` that goes out of scope without `commit` aborts the database batch: the
pool tables are those of its start again, while the pool's own members keep what the
code did to them. An exception is `none`.
-/

namespace Arqma.Cryptonote

variable {κ η β φ : Type}

/-! ### Transactions and the pool -/

/-- `txin_v`. The pool reads the key image of a `txin_to_key` and rejects the others. -/
inductive TxIn (κ : Type) where
  | gen
  | toScript
  | toScripthash
  | toKey (kImage : κ)
  deriving DecidableEq

/-- What the pool reads of a `transaction`. -/
structure Transaction (κ : Type) where
  /-- `version`. -/
  version : ℕ
  /-- `vin`. -/
  vin : List (TxIn κ)
  /-- `is_transfer()`: a `standard` or `stake` transaction. -/
  isTransfer : Bool

/-- `txversion::v0`. -/
def txversionV0 : ℕ := 0

/-- `txversion::v3`. -/
def txversionV3 : ℕ := 3

/-- `network_version_16`. -/
def networkVersion16 : ℕ := 16

/-- `network_version_19`. -/
def networkVersion19 : ℕ := 19

/-- `MEMPOOL_PRUNE_NON_STANDARD_TX_LIFETIME`, in seconds. -/
def mempoolPruneNonStandardTxLifetime : ℕ := 7200

/-- `check_inputs_types_supported`: every input a `txin_to_key`. -/
def checkInputsTypesSupported (tx : Transaction κ) : Bool :=
  tx.vin.all fun | .toKey _ => true | _ => false

/-- `txpool_tx_meta_t`: the fields `add_tx` writes that the modelled functions read or
return. -/
structure TxpoolTxMeta where
  weight : ℕ
  fee : ℕ
  keptByBlock : Bool
  relayed : Bool
  doNotRelay : Bool
  doubleSpendSeen : Bool
  receiveTime : ℕ
  deriving DecidableEq

/-- `tx_pool_options`. -/
structure TxPoolOptions where
  keptByBlock : Bool := false
  relayed : Bool := false
  doNotRelay : Bool := false
  feePercent : ℕ := 100
  burnFixed : ℕ := 0
  burnPercent : ℕ := 0

/-- An entry of `m_txs_by_fee_and_receive_time`: whether the transaction is not
standard, its fee per byte, its arrival time, and its id. -/
abbrev TxByFeeEntry (φ η : Type) := (Bool × φ × ℕ) × η

/-- `tx_memory_pool`: the pool tables of the database (each id with its meta and blob,
as `add_txpool_tx` stores them together), `m_spent_key_images`,
`m_txs_by_fee_and_receive_time`, `m_txpool_weight`, `m_txpool_max_weight` and
`m_timed_out_transactions`. -/
structure TxMemoryPool (κ η β φ : Type) where
  txpool : List (η × TxpoolTxMeta × β)
  spentKeyImages : List (κ × List η)
  txsByFeeAndReceiveTime : List (TxByFeeEntry φ η)
  txpoolWeight : ℕ
  txpoolMaxWeight : ℕ
  timedOutTransactions : List η

/-- What `add_tx` asks of the blockchain and the rest of the node. -/
structure TxPoolEnv (κ η β φ : Type) where
  /-- `get_tx_miner_fee(tx, fee, burning_enabled, &burned)`: its result, `fee` and
  `burned`. -/
  getTxMinerFee : Transaction κ → Bool → Bool × ℕ × ℕ
  /-- `Blockchain::check_fee(tx, tx_weight, ..., fee, burned, opts)`. -/
  checkFee : Transaction κ → ℕ → ℕ → ℕ → TxPoolOptions → Bool
  /-- `have_duplicated_non_standard_tx`, which reads the pool's transactions. -/
  haveDuplicatedNonStandardTx : List (η × TxpoolTxMeta × β) → Transaction κ → ℕ → Bool
  /-- `Blockchain::check_tx_outputs`. -/
  checkTxOutputs : Transaction κ → Bool
  /-- `tx_memory_pool::check_tx_inputs(tx, id, ..., kept_by_block)`. -/
  checkTxInputs : Transaction κ → η → Bool → Bool
  /-- `fee / (double)tx_weight`. -/
  feePerByte : ℕ → ℕ → φ
  /-- `parse_and_validate_tx_prefix_from_blob`. -/
  parseTx : β → Option (Transaction κ)

section Model

variable [DecidableEq κ] [LinearOrder φ] [LinearOrder η]

/-! ### The pool tables -/

/-- `get_txpool_tx_meta`. -/
def getTxpoolTxMeta (id : η) (txpool : List (η × TxpoolTxMeta × β)) : Option TxpoolTxMeta :=
  (txpool.find? (·.1 = id)).map (·.2.1)

/-- `get_txpool_tx_blob`, which throws when the id is not there. -/
def getTxpoolTxBlob (id : η) (txpool : List (η × TxpoolTxMeta × β)) : Option β :=
  (txpool.find? (·.1 = id)).map (·.2.2)

/-- `add_txpool_tx`, which throws when the id is there already (`MDB_KEYEXIST`). -/
def addTxpoolTx (id : η) (blob : β) (txMeta : TxpoolTxMeta) (txpool : List (η × TxpoolTxMeta × β)) :
    Option (List (η × TxpoolTxMeta × β)) :=
  if txpool.any (·.1 = id) then none else some (txpool ++ [(id, txMeta, blob)])

/-- `remove_txpool_tx`: an id that is not there is no error. -/
def removeTxpoolTx (id : η) (txpool : List (η × TxpoolTxMeta × β)) : List (η × TxpoolTxMeta × β) :=
  txpool.eraseP (·.1 = id)

/-- `update_txpool_tx`, which throws when the id is not there. -/
def updateTxpoolTx (id : η) (txMeta : TxpoolTxMeta) (txpool : List (η × TxpoolTxMeta × β)) :
    Option (List (η × TxpoolTxMeta × β)) :=
  if txpool.any (·.1 = id) then some (txpool.map fun e => if e.1 = id then (e.1, txMeta, e.2.2) else e) else none

/-! ### Key images -/

/-- `have_tx_keyimg_as_spent`. -/
def haveTxKeyimgAsSpent (k : κ) (spent : List (κ × List η)) : Bool := spent.any (·.1 = k)

/-- `have_tx_keyimges_as_spent`; an input that is not a `txin_to_key` answers `true`. -/
def haveTxKeyimgesAsSpent (tx : Transaction κ) (spent : List (κ × List η)) : Bool :=
  tx.vin.any fun | .toKey k => haveTxKeyimgAsSpent k spent | _ => true

/-- The loop of `insert_key_images`: `false` at the first input that fails its check,
with the key images inserted before it left in place. -/
def insertKeyImagesLoop (id : η) (keptByBlock : Bool) :
    List (TxIn κ) → List (κ × List η) → Bool × List (κ × List η)
  | [], spent => (true, spent)
  | .toKey k :: rest, spent =>
    -- `m_spent_key_images[txin.k_image]` makes an empty set for a key image not there
    let spent := Buckets.modifyOrCreate k (fun s => s) spent
    let kiSet := Buckets.itemsOf k spent
    if !(keptByBlock || kiSet.length == 0) then (false, spent)
    else if id ∈ kiSet then (false, spent)
    else insertKeyImagesLoop id keptByBlock rest (Buckets.modifyOrCreate k (fun s => s ++ [id]) spent)
  | _ :: _, spent => (false, spent)

/-- `insert_key_images`. -/
def insertKeyImages (tx : Transaction κ) (id : η) (keptByBlock : Bool) (spent : List (κ × List η)) :
    Bool × List (κ × List η) :=
  insertKeyImagesLoop id keptByBlock tx.vin spent

/-- The loop of `remove_transaction_keyimages`: `false` at the first input that fails
its check, with the key images removed before it gone. -/
def removeTransactionKeyimagesLoop (actualHash : η) :
    List (TxIn κ) → List (κ × List η) → Bool × List (κ × List η)
  | [], spent => (true, spent)
  | .toKey k :: rest, spent =>
    if !haveTxKeyimgAsSpent k spent then (false, spent)
    else
      let kiSet := Buckets.itemsOf k spent
      if kiSet.length = 0 then (false, spent)
      else if actualHash ∉ kiSet then (false, spent)
      else
        let kiSet := kiSet.erase actualHash
        -- an emptied set is erased from the map
        let spent := if kiSet.length = 0 then Buckets.eraseKey k spent
          else Buckets.modifyOrCreate k (fun _ => kiSet) spent
        removeTransactionKeyimagesLoop actualHash rest spent
  | _ :: _, spent => (false, spent)

/-- `remove_transaction_keyimages`. -/
def removeTransactionKeyimages (tx : Transaction κ) (actualHash : η) (spent : List (κ × List η)) :
    Bool × List (κ × List η) :=
  removeTransactionKeyimagesLoop actualHash tx.vin spent

/-! ### The sorted entries -/

/-- What `txCompare` compares: non-standard transactions first, then the higher fee per
byte, the earlier arrival, and the id. -/
def txCompareKey (e : TxByFeeEntry φ η) : Lex (Bool × Lex (φᵒᵈ × Lex (ℕ × η))) :=
  toLex (!e.1.1, toLex (OrderDual.toDual e.1.2.1, toLex (e.1.2.2, e.2)))

/-- `m_txs_by_fee_and_receive_time.emplace(e)`: a `std::set` ordered by `txCompare`. -/
def emplace (e : TxByFeeEntry φ η) (l : List (TxByFeeEntry φ η)) : List (TxByFeeEntry φ η) :=
  if e ∈ l then l else l.orderedInsert (fun a b => txCompareKey a ≤ txCompareKey b) e

/-! ### Removing a transaction -/

/-- `decrease_txpool_weight`, which clamps at zero. -/
def decreaseTxpoolWeight (weight : ℕ) (pool : TxMemoryPool κ η β φ) : TxMemoryPool κ η β φ :=
  if pool.txpoolWeight < weight then { pool with txpoolWeight := 0 }
  else { pool with txpoolWeight := pool.txpoolWeight - weight }

/-- The removal `remove_tx` and `take_tx` share: the tables, the weight, and the key
images of the transaction, whose own result is not read. -/
def removeFromPool (tx : Transaction κ) (id : η) (txMeta : TxpoolTxMeta) (pool : TxMemoryPool κ η β φ) :
    TxMemoryPool κ η β φ :=
  let pool := decreaseTxpoolWeight txMeta.weight { pool with txpool := removeTxpoolTx id pool.txpool }
  { pool with spentKeyImages := (removeTransactionKeyimages tx id pool.spentKeyImages).2 }

/-- `remove_tx(txid, &meta, &it)` as `prune` calls it, with the meta it read and the
entry `it` points at; `none` when it returns `false` or throws, which it does before
any change. -/
def removeTx (parse : β → Option (Transaction κ)) (txid : η) (txMeta : TxpoolTxMeta) (it : TxByFeeEntry φ η)
    (pool : TxMemoryPool κ η β φ) : Option (TxMemoryPool κ η β φ) := do
  let blob ← getTxpoolTxBlob txid pool.txpool
  let tx ← parse blob
  let pool := removeFromPool tx txid txMeta pool
  some { pool with txsByFeeAndReceiveTime := pool.txsByFeeAndReceiveTime.erase it }

/-- `take_tx`: the transaction, its blob and its meta, and the pool without them;
`none` when it returns `false`, which it does before any change. The entry
`find_tx_in_sorted_container` found is erased after the batch is committed. -/
def takeTx (parse : β → Option (Transaction κ)) (id : η) (pool : TxMemoryPool κ η β φ) :
    Option (Transaction κ × β × TxpoolTxMeta × TxMemoryPool κ η β φ) := do
  let txMeta ← getTxpoolTxMeta id pool.txpool
  let blob ← getTxpoolTxBlob id pool.txpool
  let tx ← parse blob
  let pool := removeFromPool tx id txMeta pool
  some (tx, blob, txMeta, { pool with txsByFeeAndReceiveTime := pool.txsByFeeAndReceiveTime.eraseP (·.2 = id) })

/-! ### Pruning -/

/-- `try_pruning`: a transaction kept by a block stays; `none` when it returns `false`. -/
def tryPruning (parse : β → Option (Transaction κ)) (it : TxByFeeEntry φ η) (pool : TxMemoryPool κ η β φ) :
    Option (TxMemoryPool κ η β φ) :=
  match getTxpoolTxMeta it.2 pool.txpool with
  | none => none
  | some txMeta => if txMeta.keptByBlock then some pool else removeTx parse it.2 txMeta it pool

/-- The first loop of `prune`, over the entries from the front: the non-standard
transactions that arrived before `unexpired`; `false`, with the pool of that moment,
when a `try_pruning` fails. Removing the entry at the iterator leaves the entries after
it as they were, so the loop runs over those of its start. -/
def pruneForward (parse : β → Option (Transaction κ)) (unexpired : ℤ) :
    List (TxByFeeEntry φ η) → TxMemoryPool κ η β φ → Bool × TxMemoryPool κ η β φ
  | [], pool => (true, pool)
  | it :: rest, pool =>
    if !it.1.1 || unexpired ≤ it.1.2.2 then (true, pool)
    else match tryPruning parse it pool with
      | none => (false, pool)
      | some pool => pruneForward parse unexpired rest pool

/-- The second loop of `prune`, over the entries from the back down to the second,
while the pool weighs more than `m_txpool_max_weight`. -/
def pruneBackward (parse : β → Option (Transaction κ)) :
    List (TxByFeeEntry φ η) → TxMemoryPool κ η β φ → Bool × TxMemoryPool κ η β φ
  | [], pool => (true, pool)
  | it :: rest, pool =>
    if pool.txpoolWeight ≤ pool.txpoolMaxWeight then (true, pool)
    else match tryPruning parse it pool with
      | none => (false, pool)
      | some pool => pruneBackward parse rest pool

/-- `prune` at time `now` (its argument is not read after its first line). When a loop
returns early the batch is aborted: the pool tables are those of the start. -/
def prune (parse : β → Option (Transaction κ)) (now : ℕ) (pool : TxMemoryPool κ η β φ) :
    TxMemoryPool κ η β φ :=
  let unexpired : ℤ := now - mempoolPruneNonStandardTxLifetime
  let forward := pruneForward parse unexpired pool.txsByFeeAndReceiveTime pool
  if !forward.1 then { forward.2 with txpool := pool.txpool }
  else
    let backward := pruneBackward parse (forward.2.txsByFeeAndReceiveTime.drop 1).reverse forward.2
    if !backward.1 then { backward.2 with txpool := pool.txpool } else backward.2

/-! ### Adding a transaction -/

/-- The marking of a pool transaction as seen double spending, in `mark_double_spend`:
one not in the tables is skipped, and a failed update is not fatal. -/
def markDoubleSpendSeen (txpool : List (η × TxpoolTxMeta × β)) (txid : η) : List (η × TxpoolTxMeta × β) :=
  match getTxpoolTxMeta txid txpool with
  | none => txpool
  | some txMeta =>
    if txMeta.doubleSpendSeen then txpool
    else (updateTxpoolTx txid { txMeta with doubleSpendSeen := true } txpool).getD txpool

/-- The loop of `mark_double_spend` over the inputs; `none` at an input that is not a
`txin_to_key`, where it returns with the batch aborted. -/
def markDoubleSpendLoop (spent : List (κ × List η)) :
    List (TxIn κ) → List (η × TxpoolTxMeta × β) → Option (List (η × TxpoolTxMeta × β))
  | [], txpool => some txpool
  | .toKey k :: rest, txpool => markDoubleSpendLoop spent rest ((Buckets.itemsOf k spent).foldl markDoubleSpendSeen txpool)
  | _ :: _, _ => none

/-- `mark_double_spend`: the pool transactions spending a key image of `tx` marked as
seen double spending. -/
def markDoubleSpend (tx : Transaction κ) (pool : TxMemoryPool κ η β φ) : TxMemoryPool κ η β φ :=
  match markDoubleSpendLoop pool.spentKeyImages tx.vin pool.txpool with
  | none => pool
  | some txpool => { pool with txpool }

/-- The `try` block of `add_tx` from `add_txpool_tx` on, and what follows it: with the
tables of the batch (`none` when `add_txpool_tx` threw), the key images, then the
sorted entry and the commit; on success the weight, and `prune`. -/
def addTxCommit (parse : β → Option (Transaction κ)) (now : ℕ) (tx : Transaction κ) (id : η) (keptByBlock : Bool)
    (txWeight : ℕ) (entry : TxByFeeEntry φ η) (txpool : Option (List (η × TxpoolTxMeta × β)))
    (pool : TxMemoryPool κ η β φ) : Bool × TxMemoryPool κ η β φ :=
  match txpool with
  | none => (false, pool)
  | some txpool =>
    let inserted := insertKeyImages tx id keptByBlock pool.spentKeyImages
    if !inserted.1 then (false, { pool with spentKeyImages := inserted.2 })
    else
      let pool := { pool with
        txpool, spentKeyImages := inserted.2,
        txsByFeeAndReceiveTime := emplace entry pool.txsByFeeAndReceiveTime }
      (true, prune parse now { pool with txpoolWeight := Word64.add pool.txpoolWeight txWeight })

/-- `add_tx(tx, id, blob, tx_weight, tvc, opts, hard_fork_version)` at time `now`, with
`blobSize` the size of the blob: whether the transaction went in, and the pool. -/
def addTx (env : TxPoolEnv κ η β φ) (now : ℕ) (tx : Transaction κ) (id : η) (blob : β) (blobSize txWeight : ℕ)
    (opts : TxPoolOptions) (hardForkVersion : ℕ) (pool : TxMemoryPool κ η β φ) : Bool × TxMemoryPool κ η β φ :=
  if blobSize = 0 then (false, pool)
  else if tx.version = txversionV0 then (false, pool)
  else if !opts.keptByBlock && id ∈ pool.timedOutTransactions then (false, pool)
  else if !checkInputsTypesSupported tx then (false, pool)
  else if networkVersion16 ≤ hardForkVersion ∧ tx.version < txversionV3 then (false, pool)
  else
    -- a failed `get_tx_miner_fee` only flags the context
    let fee := (env.getTxMinerFee tx (networkVersion19 ≤ hardForkVersion)).2
    if !opts.keptByBlock && tx.isTransfer && !env.checkFee tx txWeight fee.1 fee.2 opts then (false, pool)
    else if !opts.keptByBlock && haveTxKeyimgesAsSpent tx pool.spentKeyImages then (false, markDoubleSpend tx pool)
    else if !opts.keptByBlock && env.haveDuplicatedNonStandardTx pool.txpool tx hardForkVersion then
      (false, markDoubleSpend tx pool)
    else if !env.checkTxOutputs tx then (false, pool)
    else
      let entry : TxByFeeEntry φ η := ((!tx.isTransfer, env.feePerByte fee.1 txWeight, now), id)
      if !env.checkTxInputs tx id opts.keptByBlock then
        -- a transaction kept by a block may become valid again
        if opts.keptByBlock then
          let txMeta : TxpoolTxMeta := ⟨txWeight, fee.1, opts.keptByBlock, opts.relayed, opts.doNotRelay,
            haveTxKeyimgesAsSpent tx pool.spentKeyImages || env.haveDuplicatedNonStandardTx pool.txpool tx hardForkVersion,
            now⟩
          addTxCommit env.parseTx now tx id opts.keptByBlock txWeight entry (addTxpoolTx id blob txMeta pool.txpool) pool
        else (false, pool)
      else
        let txMeta : TxpoolTxMeta := ⟨txWeight, fee.1, opts.keptByBlock, opts.relayed, opts.doNotRelay, false, now⟩
        addTxCommit env.parseTx now tx id opts.keptByBlock txWeight entry
          (addTxpoolTx id blob txMeta (removeTxpoolTx id pool.txpool)) pool

end Model

end Arqma.Cryptonote
