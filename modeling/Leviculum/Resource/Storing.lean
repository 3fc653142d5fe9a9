import Leviculum.Resource.ReceiverSpec

/-! How many parts the receiver waits for, how many are missing, and what storing one does to
both. -/

namespace Leviculum.Resource

namespace IncomingResource

theorem matchPart_eq_some {r : IncomingResource} {mh : MapHash} {j : Nat}
    (found : r.matchPart mh = some j) :
    r.consecutiveCompletedHeight ≤ j ∧
      j < r.consecutiveCompletedHeight + r.windowState.window + windowFlexibility ∧
      r.parts[j]? = some none ∧ r.hashmap[j]? = some (some mh) := by
  obtain ⟨⟨⟨part, entry⟩, index⟩, slot, rfl⟩ := Option.map_eq_some_iff.mp found
  have wanted := List.find?_some slot
  obtain ⟨missing, known⟩ := of_decide_eq_true wanted
  dsimp only at missing known
  subst missing known
  obtain ⟨low, high, stored, hash⟩ := mem_slots (List.mem_of_find?_eq_some slot)
  exact ⟨low, by omega, stored, hash⟩

def Counted (r : IncomingResource) : Prop := r.outstandingParts ≤ r.missingParts

theorem scanWindow_length_le (range : List ((Option Bytes × Option MapHash) × Nat)) :
    (scanWindow range).1.length ≤ (range.map (fun slot => slot.1.1)).count none := by
  induction range with
  | nil => exact Nat.le_refl _
  | cons slot rest ih =>
    obtain ⟨⟨part, entry⟩, pn⟩ := slot
    rw [List.map_cons]
    cases part with
    | some data => exact Nat.le_trans ih (List.count_le_count_cons ..)
    | none =>
      rw [List.count_cons_self]
      cases entry with
      | none => exact Nat.zero_le _
      | some hash => exact Nat.succ_le_succ ih

theorem zip_fst_sublist (parts : List (Option Bytes)) (hashmap : List (Option MapHash)) :
    List.Sublist ((parts.zip hashmap).map Prod.fst) parts := by
  induction parts generalizing hashmap with
  | nil => exact List.nil_sublist _
  | cons part parts ih =>
    cases hashmap with
    | nil => exact List.nil_sublist _
    | cons entry hashmap => exact (ih hashmap).cons_cons part

theorem asking_length_le (r : IncomingResource) : r.asking.1.length ≤ r.missingParts := by
  have window : List.Sublist
      ((r.slots r.consecutiveCompletedHeight (min (r.consecutiveCompletedHeight +
        r.windowState.window) r.numParts)).map (fun slot => slot.1.1))
      ((r.parts.zip r.hashmap).zipIdx.map (fun slot => slot.1.1)) :=
    ((List.take_sublist _ _).trans (List.drop_sublist _ _)).map _
  have columns : (r.parts.zip r.hashmap).zipIdx.map (fun slot => slot.1.1) =
      (r.parts.zip r.hashmap).map Prod.fst := by
    have unzipped := congrArg (List.map Prod.fst) (List.zipIdx_map_fst 0 (r.parts.zip r.hashmap))
    rw [List.map_map] at unzipped
    exact unzipped
  rw [columns] at window
  exact Nat.le_trans (scanWindow_length_le _)
    ((window.trans (zip_fst_sublist r.parts r.hashmap)).count_le none)

theorem counted_buildRequest (r : IncomingResource) : r.buildRequest.2.Counted :=
  asking_length_le { r with
    consecutiveCompletedHeight := advanceHeight (r.parts.drop r.consecutiveCompletedHeight)
      r.consecutiveCompletedHeight }

theorem missingParts_set {r : IncomingResource} {j : Nat} {data : Bytes}
    (missing : r.parts[j]? = some none) :
    (r.parts.set j (some data)).count none + 1 = r.missingParts := by
  obtain ⟨short, here⟩ := List.getElem?_eq_some_iff.mp missing
  have positive : 0 < r.parts.count none :=
    List.count_pos_iff.mpr (List.mem_of_getElem? missing)
  unfold missingParts
  rw [List.count_set short, here]
  simp only [beq_self_eq_true, if_true, reduceCtorEq, Option.some_beq_none, if_false]
  omega

theorem storePart_spec (r : IncomingResource) (j : Nat) (data : Bytes) (nowMs : Nat) :
    (r.storePart j data nowMs).parts = r.parts.set j (some data) ∧
      (r.storePart j data nowMs).outstandingParts = r.outstandingParts - 1 ∧
      (r.storePart j data nowMs).waitingForHmu = r.waitingForHmu ∧
      (r.storePart j data nowMs).status = r.status := by
  have settled : (r.settlePartSize j data.length).parts = r.parts ∧
      (r.settlePartSize j data.length).outstandingParts = r.outstandingParts ∧
      (r.settlePartSize j data.length).waitingForHmu = r.waitingForHmu ∧
      (r.settlePartSize j data.length).status = r.status := by
    unfold settlePartSize
    split
    · exact ⟨rfl, rfl, rfl, rfl⟩
    · split_ifs <;> exact ⟨rfl, rfl, rfl, rfl⟩
  obtain ⟨parts, outstanding, waiting, status⟩ := settled
  unfold storePart
  dsimp only
  split_ifs
  · exact ⟨by rw [← parts]; rfl, by rw [← outstanding]; rfl, waiting, status⟩
  · exact ⟨by rw [← parts], by rw [← outstanding], waiting, status⟩

theorem updateEifr_spec (r : IncomingResource) (nowMs : Nat) :
    (r.updateEifr nowMs).parts = r.parts ∧
      (r.updateEifr nowMs).outstandingParts = r.outstandingParts := by
  unfold updateEifr
  split
  · exact ⟨rfl, rfl⟩
  · dsimp only
    split_ifs <;> exact ⟨rfl, rfl⟩

theorem afterPart_spec {r : IncomingResource} (nowMs : Nat) (counted : r.Counted) :
    (r.afterPart nowMs).2.parts = r.parts ∧ (r.afterPart nowMs).2.Counted ∧
      ((r.afterPart nowMs).1 = .assembling ↔ r.missingParts = 0) ∧
      ((r.afterPart nowMs).1 = .assembling → (r.afterPart nowMs).2.status = .assembling) := by
  obtain ⟨parts, outstanding⟩ := updateEifr_spec r nowMs
  have missing : (r.updateEifr nowMs).missingParts = r.missingParts := by
    rw [missingParts, parts, missingParts]
  unfold Counted at counted
  unfold afterPart
  dsimp only
  by_cases round : (r.updateEifr nowMs).outstandingParts = 0
  · rw [if_pos round]
    have kept : ((r.updateEifr nowMs).completeRound nowMs).missingParts = r.missingParts := missing
    rw [kept]
    by_cases whole : r.missingParts = 0
    · rw [if_pos whole]
      refine ⟨parts, ?_, ⟨fun _ => whole, fun _ => rfl⟩, fun _ => rfl⟩
      show (r.updateEifr nowMs).outstandingParts ≤ _
      rw [round]
      exact Nat.zero_le _
    · rw [if_neg whole]
      split_ifs
      · refine ⟨parts, ?_, ⟨fun same => (by cases same), fun zero => absurd zero whole⟩,
          fun same => (by cases same)⟩
        exact counted_buildRequest _
      · refine ⟨parts, ?_, ⟨fun same => (by cases same), fun zero => absurd zero whole⟩,
          fun same => (by cases same)⟩
        show (r.updateEifr nowMs).outstandingParts ≤ _
        rw [round]
        exact Nat.zero_le _
  · rw [if_neg round]
    refine ⟨parts, ?_, ⟨fun same => (by cases same), fun zero => ?_⟩, fun same => (by cases same)⟩
    · show (r.updateEifr nowMs).outstandingParts ≤ (r.updateEifr nowMs).missingParts
      rw [outstanding, missing]
      exact counted
    · rw [outstanding] at round
      omega

theorem receivePart_spec {P : Primitives} {r : IncomingResource} (data : Bytes) (nowMs : Nat)
    (counted : r.Counted) :
    (receivePart P r data nowMs).2.Counted ∧
      (receivePart P r data nowMs = (.invalidPart, r) ∨
        ∃ j, r.matchPart (P.mapHash data r.randomHash) = some j ∧
          (receivePart P r data nowMs).2.parts = r.parts.set j (some data) ∧
          ((receivePart P r data nowMs).1 = .assembling ↔
            (receivePart P r data nowMs).2.missingParts = 0) ∧
          ((receivePart P r data nowMs).1 = .assembling →
            (receivePart P r data nowMs).2.status = .assembling)) := by
  unfold receivePart
  split_ifs
  · exact ⟨counted, .inl rfl⟩
  · exact ⟨counted, .inl rfl⟩
  · split
    next => exact ⟨counted, .inl rfl⟩
    next j found =>
      split_ifs
      · exact ⟨counted, .inl rfl⟩
      · obtain ⟨-, -, missing, -⟩ := matchPart_eq_some found
        obtain ⟨parts, outstanding, -, -⟩ := storePart_spec r j data nowMs
        have less : (r.parts.set j (some data)).count none + 1 = r.missingParts :=
          missingParts_set missing
        have stored : (r.storePart j data nowMs).missingParts + 1 = r.missingParts := by
          rw [missingParts, parts]
          exact less
        have counted' : (r.storePart j data nowMs).Counted := by
          unfold Counted at counted ⊢
          rw [outstanding]
          omega
        obtain ⟨kept, after, reported, status⟩ := afterPart_spec nowMs counted'
        have same : ((r.storePart j data nowMs).afterPart nowMs).2.missingParts =
            (r.storePart j data nowMs).missingParts := by
          rw [missingParts, kept, missingParts]
        refine ⟨after, .inr ⟨j, found, kept.trans parts, ?_, status⟩⟩
        rw [same]
        exact reported

theorem poll_parts {r : IncomingResource} (nowMs rttMs turnaroundMs acquisitionMs : Nat)
    (counted : r.Counted) :
    (r.poll nowMs rttMs turnaroundMs acquisitionMs).2.parts = r.parts ∧
      (r.poll nowMs rttMs turnaroundMs acquisitionMs).2.Counted := by
  unfold poll
  dsimp only
  split_ifs
  · exact ⟨rfl, counted⟩
  · exact ⟨rfl, counted_buildRequest _⟩
  · exact ⟨rfl, counted⟩
  · exact ⟨rfl, counted⟩

theorem requestAgain_parts {r : IncomingResource} (resourceHash : Digest) (nowMs : Nat)
    (counted : r.Counted) :
    (r.requestAgainForReadvertisement resourceHash nowMs).2.parts = r.parts ∧
      (r.requestAgainForReadvertisement resourceHash nowMs).2.Counted := by
  unfold requestAgainForReadvertisement
  split_ifs
  · exact ⟨rfl, counted⟩
  · exact ⟨rfl, counted_buildRequest _⟩

theorem handleHashmapUpdate_parts {r : IncomingResource} (nowMs : Nat) (update : HashmapUpdate)
    (counted : r.Counted) :
    (r.handleHashmapUpdate nowMs update).2.parts = r.parts ∧
      (r.handleHashmapUpdate nowMs update).2.Counted ∧
      (r.handleHashmapUpdate nowMs update).2.toInbound = r.toInbound ∧
      r.consecutiveCompletedHeight ≤
        (r.handleHashmapUpdate nowMs update).2.consecutiveCompletedHeight := by
  unfold handleHashmapUpdate
  split_ifs
  · exact ⟨rfl, counted, rfl, Nat.le_refl _⟩
  · exact ⟨rfl, counted, rfl, Nat.le_refl _⟩
  · exact ⟨rfl, counted, rfl, Nat.le_refl _⟩
  · exact ⟨rfl, counted_buildRequest _, rfl, le_advanceHeight _ _⟩

end IncomingResource

end Leviculum.Resource
