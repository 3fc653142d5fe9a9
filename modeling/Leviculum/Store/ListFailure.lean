import Leviculum.Store.Churn

/-! What failed flash operations can do to an operator list that is being rewritten. -/

namespace Leviculum.Store

open Propagation RecordLog

section Rewrite

variable {log : RecordLog} {ops : List FlushOp} {list : BoardList} {new : List DestinationHash}

end Rewrite

theorem moved_pnPerform (log : RecordLog) (op : FlushOp) (fate : Fate) :
    (log.pnPerform op fate).2.region.length = log.region.length ∧
      ((log.pnPerform op fate).2.active = log.active ∨
        op.entry.isSome = true ∧ (log.pnPerform op fate).2.active = log.next) := by
  have program : ∀ (log : RecordLog) entry fate, (log.program entry fate).2.region.length = log.region.length ∧
      (log.program entry fate).2.active = log.active := by
    intro log entry fate
    unfold RecordLog.program
    split
    · exact ⟨List.length_modify .., rfl⟩
    · exact ⟨rfl, rfl⟩
    · exact ⟨List.length_modify .., rfl⟩
  have purgeAt : ∀ offset key, (log.purgeAt offset key fate).2.region.length = log.region.length ∧
      (log.purgeAt offset key fate).2.active = log.active := by
    intro offset key
    unfold RecordLog.purgeAt RecordLog.purge
    split
    · split_ifs
      · exact ⟨rfl, rfl⟩
      · split
        · exact ⟨List.length_modify .., rfl⟩
        · exact ⟨rfl, rfl⟩
      · exact ⟨rfl, rfl⟩
    · exact ⟨rfl, rfl⟩
  cases op with
  | append entry =>
    have opened : log.advance.region.length = log.region.length := List.length_set
    change (log.append entry fate).2.region.length = _ ∧ ((log.append entry fate).2.active = log.active ∨
      true = true ∧ (log.append entry fate).2.active = log.next)
    unfold RecordLog.append
    split_ifs
    · exact ⟨rfl, .inl rfl⟩
    · split
      · exact ⟨rfl, .inl rfl⟩
      · exact ⟨List.length_set, .inl rfl⟩
      · exact ⟨(program _ _ _).1.trans opened, .inr ⟨rfl, (program _ _ _).2⟩⟩
      · exact ⟨(program _ _ _).1.trans opened, .inr ⟨rfl, (program _ _ _).2⟩⟩
    · exact ⟨(program _ _ _).1, .inl (program _ _ _).2⟩
  | purge offset key => exact ⟨(purgeAt offset key).1, .inl (purgeAt offset key).2⟩
  | confirmedPurge offset key => exact ⟨(purgeAt offset key).1, .inl (purgeAt offset key).2⟩

def OutOfReach (log : RecordLog) (appends page : Nat) : Prop :=
  ∀ i < appends, (log.active + 1 + i) % log.region.length ≠ page

theorem OutOfReach.step {log : RecordLog} {op : FlushOp} {rest : List FlushOp} {page : Nat}
    (away : OutOfReach log (appendsOf (op :: rest)) page) (fate : Fate) :
    (log.performEffect op fate).erased ≠ some page ∧
      OutOfReach (log.pnPerform op fate).2 (appendsOf rest) page := by
  have counted : appendsOf (op :: rest) = appendsOf rest + if op.entry.isSome then 1 else 0 := List.countP_cons
  obtain ⟨length, active⟩ := moved_pnPerform log op fate
  constructor
  · unfold performEffect
    cases written : op.entry with
    | none => nofun
    | some entry =>
      rw [written] at counted
      have next : log.next ≠ page := away 0 (by rw [counted]; exact Nat.succ_pos _)
      dsimp only
      unfold appendEffect
      split_ifs
      · nofun
      · exact fun same => next (Option.some.inj same)
      · exact fun same => next (Option.some.inj same)
      · nofun
      · nofun
  · intro i less
    rw [length]
    rcases active with stays | ⟨wrote, moves⟩
    · rw [stays]
      exact away i (by omega)
    · rw [wrote, if_pos rfl] at counted
      have later := away (i + 1) (by omega)
      rw [moves, next, Nat.add_assoc, Nat.mod_add_mod]
      have shift : log.active + 1 + (1 + i) = log.active + 1 + (i + 1) := by omega
      rw [shift]
      exact later

def sampleHash (byte : UInt8) : DestinationHash := FixedBytes.replicate 16 byte

end Leviculum.Store
