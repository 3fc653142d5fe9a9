import Leviculum.Store.LogEffect

/-! The writes the stores queue, and the record-store task that performs them one after another. -/

namespace Leviculum.Store

inductive FlushOp where
  | append (entry : Entry)
  | purge (offset : Nat) (key : Key)
  /-- A purge whose landing the engine reports back to the role. -/
  | confirmedPurge (offset : Nat) (key : Key)
  deriving DecidableEq

namespace RecordLog

def purgeAt (log : RecordLog) (offset : Nat) (key : Key) (fate : Fate) : Bool × RecordLog :=
  match log.recordAt offset with
  | some record => if record.key = key then log.purge record fate else (true, log)
  | none => (true, log)

/-- Perform one write; whether it landed. -/
def pnPerform (log : RecordLog) (op : FlushOp) (fate : Fate) : Bool × RecordLog :=
  match op with
  | .append entry => log.append entry fate
  | .purge offset key => log.purgeAt offset key fate
  | .confirmedPurge offset key => log.purgeAt offset key fate

/-- Perform a run of writes in order; whether every one landed. -/
def performAll (log : RecordLog) : List FlushOp → List Fate → Bool × RecordLog
  | [], _ => (true, log)
  | op :: rest, fates =>
    let performed := log.pnPerform op (fates.headD .lands)
    let after := performed.2.performAll rest fates.tail
    (performed.1 && after.1, after.2)

end RecordLog

def FlushOp.target : FlushOp → Option (Nat × Key)
  | .append _ => none
  | .purge offset key => some (offset, key)
  | .confirmedPurge offset key => some (offset, key)

def FlushOp.entry : FlushOp → Option Entry
  | .append entry => some entry
  | .purge _ _ => none
  | .confirmedPurge _ _ => none

namespace RecordLog

def performEffect (log : RecordLog) (op : FlushOp) (fate : Fate) : Effect :=
  match op.entry with
  | some entry => log.appendEffect entry fate
  | none => ⟨none, none, if fate = .lands then op.target else none⟩

theorem WellFormed.purgeAt {log : RecordLog} (ok : log.WellFormed) (offset : Nat) (key : Key) (fate : Fate) :
    (log.purgeAt offset key fate).2.WellFormed ∧
      Effect.Applies ⟨none, none, if fate = .lands then some (offset, key) else none⟩ log.region
        (log.purgeAt offset key fate).2.region := by
  have untouched : (∀ record ∈ scan log.region, ¬ (fate = .lands ∧ offset = record.offset ∧ key = record.key)) →
      Effect.Applies ⟨none, none, if fate = .lands then some (offset, key) else none⟩ log.region log.region := by
    intro away record
    have other : ∀ old ∈ scan log.region,
        ¬ (if fate = .lands then some (offset, key) else none) = some (old.offset, old.key) := by
      intro old member same
      split at same
      next lands =>
        rw [Option.some.injEq, Prod.mk.injEq] at same
        exact away old member ⟨lands, same⟩
      next => cases same
    constructor
    · intro member
      refine .inr ⟨record, member, nofun, ?_⟩
      rw [if_neg (other record member)]
    · rintro (absent | ⟨old, member, -, rfl⟩)
      · cases absent
      · rw [if_neg (other old member)]
        exact member
  unfold RecordLog.purgeAt
  cases found : log.recordAt offset with
  | none =>
    refine ⟨ok, untouched ?_⟩
    rintro record member ⟨-, here, -⟩
    have stands := ok.recordAt_eq_some.mpr ⟨member, here.symm⟩
    rw [found] at stands
    cases stands
  | some record =>
    obtain ⟨member, here⟩ := ok.recordAt_eq_some.mp found
    dsimp only
    by_cases same : record.key = key
    · rw [if_pos same]
      cases fate with
      | lands =>
        rw [if_pos rfl, ← here, ← same]
        exact ok.purge member
      | fails done =>
        have unchanged : (log.purge record (.fails done)).2 = log := by
          unfold RecordLog.purge
          split <;> rfl
        rw [unchanged]
        exact ⟨ok, untouched (fun _ _ lands => by cases lands.1)⟩
    · rw [if_neg same]
      refine ⟨ok, untouched ?_⟩
      rintro other stored ⟨-, there, key'⟩
      have one := ok.fitting.record_unique member stored (here.trans there)
      exact same (by rw [one, key'])

theorem WellFormed.pnPerform {log : RecordLog} (ok : log.WellFormed) (op : FlushOp) (fate : Fate) :
    (log.pnPerform op fate).2.WellFormed ∧
      (log.performEffect op fate).Applies log.region (log.pnPerform op fate).2.region := by
  cases op with
  | append entry => exact ok.append entry fate
  | purge offset key => exact ok.purgeAt offset key fate
  | confirmedPurge offset key => exact ok.purgeAt offset key fate

theorem WellFormed.performAll {log : RecordLog} (ok : log.WellFormed) (ops : List FlushOp)
    (fates : List Fate) : (log.performAll ops fates).2.WellFormed := by
  induction ops generalizing log fates with
  | nil => exact ok
  | cons op rest ih => exact ih (ok.pnPerform op (fates.headD .lands)).1 fates.tail

theorem performEffect_added {log : RecordLog} {op : FlushOp} {fate : Fate} {record : RawRecord}
    (added : (log.performEffect op fate).added = some record) :
    fate = .lands ∧ ∃ entry, op.entry = some entry ∧ record = log.landed entry := by
  unfold performEffect at added
  split at added
  next entry written =>
    unfold appendEffect at added
    split at added
    · cases added
    · dsimp only at added
      split at added
      next lands => exact ⟨lands, entry, written, (Option.some.inj added).symm⟩
      next => cases added
  next => cases added

end RecordLog

end Leviculum.Store
