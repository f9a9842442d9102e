import GridcoinWallet.StdMap

namespace GridcoinWallet

/-- The key-pool state of CWallet and its wallet database; a holder absent from `reserved` has
nIndex = -1. -/
structure KeyPool where
  setKeyPool : StdSet Nat
  pool : StdMap Nat Nat
  nKeys : Nat
  locked : Bool
  fFileBacked : Bool
  reserved : StdMap Nat Nat

namespace KeyPool

/-- A new, unlocked, file-backed wallet with an empty key pool. -/
def init : KeyPool := ⟨StdSet.empty, StdMap.empty, 0, false, true, StdMap.empty⟩

/-- WritePool of a new key from GenerateNewKey at `nIndex`, and its insertion into setKeyPool. -/
def writeKey (nIndex : Nat) (S : KeyPool) : KeyPool :=
  { S with
    pool := S.pool.set nIndex S.nKeys
    nKeys := S.nKeys + 1
    setKeyPool := S.setKeyPool.insert nIndex }

/-- The index TopUpKeyPool writes next: one past the largest of setKeyPool, or 1 when it is empty. -/
def nEnd (S : KeyPool) : Nat :=
  match S.setKeyPool.keys.getLast? with
  | none => 1
  | some m => m + 1

/-- The loop of TopUpKeyPool while setKeyPool holds fewer than `nBound` keys, given as many turns as
it can take. -/
def topUpLoop (nBound : Nat) : Nat → KeyPool → KeyPool
  | 0, S => S
  | fuel + 1, S =>
    if S.setKeyPool.keys.length < nBound then topUpLoop nBound fuel (S.writeKey S.nEnd) else S

section Calls

/- `nKeypool` is the -keypool size (or its default) clamped at 0; `hasDefaultKey` is whether
vchDefaultKey is valid. -/
variable (nKeypool : Nat) (hasDefaultKey : Bool)

/-- CWallet::TopUpKeyPool with WritePool succeeding; the unsigned nTargetSize + 1 wraps at UINT_MAX.
 -/
def topUpKeyPool (nSize : UInt32) (S : KeyPool) : KeyPool × Bool :=
  if S.locked then (S, false)
  else
    let nTargetSize : Nat := if nSize > 0 then nSize.toNat else nKeypool % UInt32.size
    let nBound := (nTargetSize + 1) % UInt32.size
    (topUpLoop nBound nBound S, true)

example : (init.topUpKeyPool 4294967295 0).1.setKeyPool.keys = [] := rfl

/-- CWallet::NewKeyPool: the pool records of setKeyPool are erased and, on an unlocked wallet, the
indices 1 to nKeypool get new keys. -/
def newKeyPool (S : KeyPool) : KeyPool × Bool :=
  let S₁ := { S with
    pool := S.setKeyPool.keys.foldl StdMap.erase S.pool
    setKeyPool := StdSet.empty }
  if S₁.locked then (S₁, false)
  else ((List.range nKeypool).foldl (fun S i => S.writeKey (i + 1)) S₁, true)

/-- CWallet::ReserveKeyFromKeyPool (`none`: the pool is empty, nIndex = -1). -/
def reserveKeyFromKeyPool (S : KeyPool) : KeyPool × Option (Nat × Except String Nat) :=
  let S₁ := if !S.locked then (topUpKeyPool nKeypool 0 S).1 else S
  match S₁.setKeyPool.keys with
  | [] => (S₁, none)
  | nIndex :: _ =>
    let S₂ := { S₁ with setKeyPool := S₁.setKeyPool.eraseMin }
    match S₂.pool.find? nIndex with
    | none => (S₂, some (nIndex, .error "ReserveKeyFromKeyPool() : read failed"))
    | some k =>
      if k < S₂.nKeys then (S₂, some (nIndex, .ok k))
      else (S₂, some (nIndex, .error "ReserveKeyFromKeyPool() : unknown key in key pool"))

/-- CWallet::KeepKey: the pool record is erased. -/
def keepKey (nIndex : Nat) (S : KeyPool) : KeyPool :=
  if S.fFileBacked then { S with pool := S.pool.erase nIndex } else S

/-- CWallet::ReturnKey. -/
def returnKey (nIndex : Nat) (S : KeyPool) : KeyPool := { S with setKeyPool := S.setKeyPool.insert nIndex }

/-- CWallet::GetKeyFromPool: whether it returns a key. -/
def getKeyFromPool (fAllowReuse : Bool) (S : KeyPool) : KeyPool × Except String Bool :=
  match reserveKeyFromKeyPool nKeypool S with
  | (S₁, none) =>
    if fAllowReuse && hasDefaultKey then (S₁, .ok true)
    else if S₁.locked then (S₁, .ok false)
    else ({ S₁ with nKeys := S₁.nKeys + 1 }, .ok true)
  | (S₁, some (nIndex, .ok _)) => (keepKey nIndex S₁, .ok true)
  | (S₁, some (_, .error e)) => (S₁, .error e)

/-- CReserveKey::GetReservedKey of the holder `holder`: a holder without an index reserves one, and
keeps it even when reading its record throws. -/
def getReservedKey (holder : Nat) (S : KeyPool) : KeyPool × Except String Bool :=
  match S.reserved.find? holder with
  | some _ => (S, .ok true)
  | none =>
    match reserveKeyFromKeyPool nKeypool S with
    | (S₁, none) => (S₁, .ok hasDefaultKey)
    | (S₁, some (nIndex, r)) => ({ S₁ with reserved := S₁.reserved.set holder nIndex }, r.map fun _ => true)

end Calls

/-- CReserveKey::KeepKey. -/
def reserveKeepKey (holder : Nat) (S : KeyPool) : KeyPool :=
  match S.reserved.find? holder with
  | none => S
  | some nIndex => { keepKey nIndex S with reserved := S.reserved.erase holder }

/-- CReserveKey::ReturnKey. -/
def reserveReturnKey (holder : Nat) (S : KeyPool) : KeyPool :=
  match S.reserved.find? holder with
  | none => S
  | some nIndex => { returnKey nIndex S with reserved := S.reserved.erase holder }

end KeyPool

/-- The calls on the key pool; a reservation is made, kept and returned by a CReserveKey, named by a
number. -/
inductive KeyPoolCall
  | topUpKeyPool (nSize : UInt32)
  | newKeyPool
  | getKeyFromPool (fAllowReuse : Bool)
  | getReservedKey (holder : Nat)
  | keepKey (holder : Nat)
  | returnKey (holder : Nat)
  | setLocked (fLocked : Bool)
  deriving DecidableEq, Repr

namespace KeyPoolCall

/-- The state a call leaves and what it returns or throws. -/
def run (nKeypool : Nat) (hasDefaultKey : Bool) (c : KeyPoolCall) (S : KeyPool) : KeyPool × Except String Bool :=
  match c with
  | topUpKeyPool nSize => let r := S.topUpKeyPool nKeypool nSize; (r.1, .ok r.2)
  | newKeyPool => let r := S.newKeyPool nKeypool; (r.1, .ok r.2)
  | getKeyFromPool fAllowReuse => S.getKeyFromPool nKeypool hasDefaultKey fAllowReuse
  | getReservedKey holder => S.getReservedKey nKeypool hasDefaultKey holder
  | keepKey holder => (S.reserveKeepKey holder, .ok true)
  | returnKey holder => (S.reserveReturnKey holder, .ok true)
  | setLocked fLocked => ({ S with locked := fLocked }, .ok true)

end KeyPoolCall

def runKeyPool (nKeypool : Nat) (hasDefaultKey : Bool) (calls : List KeyPoolCall) (S : KeyPool) : KeyPool :=
  calls.foldl (fun S c => (c.run nKeypool hasDefaultKey S).1) S

end GridcoinWallet
