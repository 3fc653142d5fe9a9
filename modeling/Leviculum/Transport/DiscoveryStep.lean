import Leviculum.Transport.DiscoveryRecords

/-! Every event keeps what the tables hold of a window and its history together. -/

namespace Leviculum.Transport.Discovery

/-! ### Retries -/

theorem retriesOf_append (dest : TruncatedHash) (first second : List Outgoing) :
    retriesOf dest (first ++ second) = retriesOf dest first + retriesOf dest second := List.countP_append

theorem retriesOf_flatMap_absent {dest : TruncatedHash} {rows : List (TruncatedHash × Nat × Nat)}
    {f : TruncatedHash × Nat × Nat → List Outgoing} (own : ∀ row, row.1 ≠ dest → retriesOf dest (f row) = 0)
    (absent : dest ∉ rows.map Prod.fst) : retriesOf dest (rows.flatMap f) = 0 := by
  induction rows with
  | nil => rfl
  | cons row rest ih =>
    rw [List.map_cons, List.mem_cons, not_or] at absent
    rw [List.flatMap_cons, retriesOf_append, own row (Ne.symm absent.1), ih absent.2]

theorem retriesOf_flatMap {m : Table (Nat × Nat)} {dest : TruncatedHash} {value : Nat × Nat}
    {f : TruncatedHash × Nat × Nat → List Outgoing} (own : ∀ row, row.1 ≠ dest → retriesOf dest (f row) = 0)
    (found : m.get? dest = some value) :
    retriesOf dest (m.entries.flatMap f) = retriesOf dest (f (dest, value)) := by
  obtain ⟨before, after, shape⟩ := List.append_of_mem (BoundedMap.get?_eq_some.mp found)
  have distinct := m.nodup
  rw [shape, List.map_append, List.map_cons, List.nodup_append', List.nodup_cons] at distinct
  have first : dest ∉ before.map Prod.fst := fun there => distinct.2.2 there List.mem_cons_self
  rw [shape, List.flatMap_append, List.flatMap_cons, retriesOf_append, retriesOf_append,
    retriesOf_flatMap_absent own first, retriesOf_flatMap_absent own distinct.2.1.1, Nat.zero_add, Nat.add_zero]

theorem retriesOf_retryOf {s : Discovery} {nowMs : Nat} {limited : Nat → List Nat} {dest : TruncatedHash}
    (row : TruncatedHash × Nat × Nat) (apart : row.1 ≠ dest) : retriesOf dest (s.retryOf nowMs limited row) = 0 := by
  obtain ⟨other, iface, endsMs⟩ := row
  unfold retryOf
  dsimp only
  split_ifs <;> simp [retriesOf, show other ≠ dest from apart]

theorem retriesOf_pass {s : Discovery} (nowMs : Nat) (limited : Nat → List Nat) {dest : TruncatedHash}
    {owner endsMs : Nat} (found : s.requests.get? dest = some (owner, endsMs)) :
    retriesOf dest (s.retryPendingDiscoveries nowMs limited).2 =
      if s.retryDue nowMs ∧ s.peerLinkReoriginations dest = false ∧ nowMs < endsMs ∧ s.discovers owner then 1
      else 0 := by
  have occupied : ¬s.requests.entries.isEmpty = true := by
    intro empty
    rw [List.isEmpty_iff] at empty
    have member := BoundedMap.get?_eq_some.mp found
    rw [empty] at member
    cases member
  have marker : s.prune.peerLinkReoriginations dest = s.peerLinkReoriginations dest := by
    show (_ && _) = _
    rw [BoundedMap.contains_of_get? found, Bool.and_true]
  unfold retryPendingDiscoveries
  by_cases due : s.retryDue nowMs = true
  · rw [if_neg (by simp [due]), if_neg occupied]
    dsimp only
    rw [retriesOf_flatMap retriesOf_retryOf found]
    unfold retryOf
    dsimp only
    rw [marker]
    by_cases peerLinks : s.peerLinkReoriginations dest = true
    · rw [if_pos peerLinks, if_neg (by simp [peerLinks])]
      rfl
    · by_cases past : nowMs ≥ endsMs
      · rw [if_neg peerLinks, if_pos past, if_neg (by omega)]
        rfl
      · have same : s.prune.discovers owner = s.discovers owner := rfl
        rw [if_neg peerLinks, if_neg past, same]
        cases discovers : s.discovers owner with
        | true => simp [retriesOf, due, peerLinks, Nat.lt_of_not_le past]
        | false => simp [retriesOf]
  · rw [if_pos (by simp [due]), if_neg (by simp [due])]
    rfl

/-! ### Every event -/

section Step

variable {cfg : NodeConfig} {dest : TruncatedHash} {s : Discovery} {h : History}

theorem Coupled.announce (now : Coupled cfg dest (s, h)) {nowMs : Nat} (clock : s.nowMs ≤ nowMs) (update : PathUpdate) :
    Coupled cfg dest (advance cfg dest (s, h) (.announce nowMs update)) := by
  have same : ∀ w : Window, w.after cfg dest s (.announce nowMs update) = w := fun _ => rfl
  have untouched : (s.handle cfg (.announce nowMs update)).1 = { s with nowMs } →
      Coupled cfg dest (advance cfg dest (s, h) (.announce nowMs update)) := by
    intro shape
    refine now.drift (by rw [shape]; exact now.fits) (by rw [shape]; exact now.positive) (by rw [shape]; exact clock)
      (by rw [shape]; exact ⟨rfl, rfl, rfl⟩) (by rw [shape]; exact fun _ _ => rfl) (by rw [shape])
      (.inl ⟨by rw [shape], id⟩) (windowAfter_same same)
  by_cases transport : cfg.enableTransport = true
  · cases found : s.requests.get? update.dest with
    | none =>
      apply untouched
      show (if cfg.enableTransport then _ else _ : Discovery × List Outgoing).1 = _
      rw [if_pos transport, sendDiscoveryPathResponse]
      dsimp only
      rw [found]
    | some entry =>
      have shape : (s.handle cfg (.announce nowMs update)).1 = { s with nowMs }.forgetRequesters update.dest := by
        show (if cfg.enableTransport then _ else _ : Discovery × List Outgoing).1 = _
        rw [if_pos transport, sendDiscoveryPathResponse]
        dsimp only
        rw [found]
        dsimp only
        split <;> rfl
      by_cases here : dest = update.dest
      · subst here
        unfold advance
        rw [shape]
        exact .over (BoundedMap.Fits.keep now.fits _) now.positive (Nat.le_trans now.clock clock)
          (BoundedMap.get?_erase_self _ _)
          fun _ => ⟨Function.update_self .., Function.update_self .., Function.update_self ..⟩
      · refine now.drift (by rw [shape]; exact BoundedMap.Fits.keep now.fits _) (by rw [shape]; exact now.positive)
          (by rw [shape]; exact clock) ?_ (by rw [shape]; exact fun _ _ => rfl) (by rw [shape]; rfl)
          (.inl ⟨?_, id⟩) (windowAfter_same same)
        · rw [shape]
          exact ⟨Function.update_of_ne here _ _, Function.update_of_ne here _ _, Function.update_of_ne here _ _⟩
        · rw [shape]
          exact BoundedMap.get?_erase_of_ne here
  · apply untouched
    show (if cfg.enableTransport then _ else _ : Discovery × List Outgoing).1 = _
    rw [if_neg transport]

theorem Coupled.poll (now : Coupled cfg dest (s, h)) {nowMs : Nat} (clock : s.nowMs ≤ nowMs) :
    Coupled cfg dest (advance cfg dest (s, h) (.poll nowMs)) := by
  have row : (s.handle cfg (.poll nowMs)).1.requests.get? dest = s.requests.get? dest ∨
      (s.handle cfg (.poll nowMs)).1.requests.get? dest = none := by
    cases kept : (s.handle cfg (.poll nowMs)).1.requests.get? dest with
    | none => exact .inr rfl
    | some entry => exact .inl (BoundedMap.get?_keep.mp kept).1.symm
  exact now.drift (BoundedMap.Fits.keep now.fits _) now.positive clock ⟨rfl, rfl, rfl⟩ (fun _ _ => rfl) rfl
    (lapse_noted h.lapsed row) (windowAfter_same fun _ => rfl)

theorem Coupled.interfaceUp (now : Coupled cfg dest (s, h)) {iface : Nat} (mode : InterfaceMode)
    (unknown : s.interfaces iface = none) :
    Coupled cfg dest (advance cfg dest (s, h) (.interfaceUp iface mode)) := by
  refine now.drift now.fits now.positive (Nat.le_refl _) ⟨rfl, rfl, rfl⟩ ?_ rfl (.inl ⟨rfl, id⟩)
    (windowAfter_same fun _ => rfl)
  intro other known
  refine Function.update_of_ne ?_ _ _
  rintro rfl
  rw [unknown] at known
  cases known

theorem Coupled.requestedPath (now : Coupled cfg dest (s, h)) {nowMs : Nat} (clock : s.nowMs ≤ nowMs)
    (other : TruncatedHash) : Coupled cfg dest (advance cfg dest (s, h) (.requestedPath nowMs other)) :=
  now.drift now.fits now.positive clock ⟨rfl, rfl, rfl⟩ (fun _ _ => rfl) rfl (.inl ⟨rfl, id⟩)
    (windowAfter_same fun _ => rfl)

theorem prune_absent {s : Discovery} (absent : s.requests.get? dest = none) :
    s.prune.extraRequesters dest = [] ∧ s.prune.peerLinkReoriginations dest = false ∧
      s.prune.requestPeers dest = none := by
  have none_ := BoundedMap.contains_eq_false.mpr absent
  unfold prune
  dsimp only
  rw [none_]
  exact ⟨rfl, Bool.and_false _, rfl⟩

theorem prune_present {s : Discovery} (present : s.requests.contains dest = true) : SameSide dest s s.prune := by
  unfold prune
  refine ⟨?_, ?_, ?_⟩ <;> dsimp only <;> rw [present]
  · exact Bool.and_true _
  · exact if_pos rfl
  · exact if_pos rfl

theorem Matches.pass {owner endsMs : Nat} {w : Window} {nowMs : Nat} (limited : Nat → List Nat)
    (now : s.Matches cfg dest owner endsMs w) (found : s.requests.get? dest = some (owner, endsMs))
    (clock : s.lastRetryMs ≤ nowMs) (due : s.retryDue nowMs = true) :
    Matches cfg { s.prune with nowMs, lastRetryMs := nowMs } dest owner endsMs
      (w.after cfg dest s (.retry nowMs limited)) := by
  have side := prune_present (BoundedMap.contains_of_get? found)
  have count := retriesOf_pass (s := { s with nowMs }) nowMs limited found
  have after : w.after cfg dest s (.retry nowMs limited) =
      { w with retriedMs := (w.after cfg dest s (.retry nowMs limited)).retriedMs } := by
    unfold Window.after
    dsimp only
    split <;> rfl
  rw [after]
  refine ⟨now.transport, side.marker.trans now.marker, ?_, ?_, now.cadence, now.registered, ?_, ?_⟩
  · exact side.peer ▸ now.peer
  · exact side.extra ▸ now.askers
  · intro last here
    unfold Window.after at here
    dsimp only at here
    split at here
    · exact Nat.le_trans (now.retried last here) clock
    · cases here
      exact Nat.le_refl _
  · intro discovering pending
    have cadence := now.cadence discovering
    have marker : s.peerLinkReoriginations dest = false := now.marker.trans cadence.2
    have once : retriesOf dest (s.handle cfg (.retry nowMs limited)).2 = 1 := by
      refine count.trans (if_pos ⟨due, marker, pending, cadence.1⟩)
    unfold Window.after
    dsimp only
    rw [if_neg (by rw [once]; exact Nat.one_ne_zero)]
    exact Nat.le_refl _

theorem Coupled.retry (now : Coupled cfg dest (s, h)) {nowMs : Nat} (clock : s.nowMs ≤ nowMs)
    (limited : Nat → List Nat) : Coupled cfg dest (advance cfg dest (s, h) (.retry nowMs limited)) := by
  have clock_ : s.lastRetryMs ≤ nowMs := Nat.le_trans now.clock clock
  by_cases due : s.retryDue nowMs = true
  · have due_ : ¬(!retryDue { s with nowMs } nowMs) = true := by
      rw [show retryDue { s with nowMs } nowMs = true from due]
      exact Bool.false_ne_true
    cases found : s.requests.get? dest with
    | none =>
      have gone : (s.handle cfg (.retry nowMs limited)).1.requests = s.requests ∧
          (s.handle cfg (.retry nowMs limited)).1.lastRetryMs ≤ (s.handle cfg (.retry nowMs limited)).1.nowMs ∧
          (s.handle cfg (.retry nowMs limited)).1.extraRequesters = s.prune.extraRequesters ∧
          (s.handle cfg (.retry nowMs limited)).1.peerLinkReoriginations = s.prune.peerLinkReoriginations ∧
          (s.handle cfg (.retry nowMs limited)).1.requestPeers = s.prune.requestPeers := by
        unfold handle retryPendingDiscoveries
        dsimp only
        rw [if_neg due_]
        split
        · exact ⟨rfl, clock_, rfl, rfl, rfl⟩
        · exact ⟨rfl, Nat.le_refl _, rfl, rfl, rfl⟩
      obtain ⟨requests, behind, extra, marker, peer⟩ := gone
      refine .over (requests ▸ now.fits) (requests ▸ now.positive) behind (requests ▸ found) fun _ => ?_
      rw [extra, marker, peer]
      exact prune_absent found
    | some entry =>
      obtain ⟨owner, endsMs⟩ := entry
      obtain ⟨w, here, matches_⟩ := now.opened owner endsMs found
      have occupied : ¬s.requests.entries.isEmpty = true := by
        intro empty
        rw [List.isEmpty_iff] at empty
        have member := BoundedMap.get?_eq_some.mp found
        rw [empty] at member
        cases member
      have shape : (s.handle cfg (.retry nowMs limited)).1 = { s.prune with nowMs, lastRetryMs := nowMs } := by
        unfold handle retryPendingDiscoveries
        dsimp only
        rw [if_neg due_, if_neg occupied]
        rfl
      have window : windowAfter cfg dest s h (.retry nowMs limited) =
          some (w.after cfg dest s (.retry nowMs limited)) := by
        have contained := BoundedMap.contains_of_get? found
        rw [windowAfter_stays contained (by rw [shape]; exact contained), here, Option.map_some]
      unfold advance
      rw [shape]
      exact .going now.fits now.positive (Nat.le_refl _) found window
        (matches_.pass limited found clock_ due)
  · have idle : s.handle cfg (.retry nowMs limited) = ({ s with nowMs }, []) := by
      unfold handle retryPendingDiscoveries
      exact if_pos (by rw [show retryDue { s with nowMs } nowMs = false from Bool.eq_false_iff.mpr due]; rfl)
    have lapsed : lapsedAfter cfg dest s h (.retry nowMs limited) = h.lapsed := by
      show (h.lapsed && !s.retryDue nowMs) = _
      rw [Bool.eq_false_iff.mpr due]
      exact Bool.and_true _
    refine now.drift (by rw [idle]; exact now.fits) (by rw [idle]; exact now.positive) (by rw [idle]; exact clock)
      (by rw [idle]; exact ⟨rfl, rfl, rfl⟩) (by rw [idle]; exact fun _ _ => rfl) (by rw [idle])
      (.inl ⟨by rw [idle], fun fresh => lapsed ▸ fresh⟩) (windowAfter_same fun w => ?_)
    unfold Window.after
    dsimp only
    rw [idle]
    exact if_pos rfl

theorem sound_interfaceDown {iface owner endsMs heir : Nat} {others : List Nat} {w : Window}
    (ok : sound cfg dest (s, h) (.interfaceDown iface) = true) (window : h.window = some w)
    (found : s.requests.get? dest = some (owner, endsMs))
    (extra : (s.extraRequesters dest).filter (· ≠ iface) = heir :: others) (discovering : w.discovering = true)
    (owns : owner = iface) : s.discovers heir = true := by
  unfold sound at ok
  dsimp only at ok
  rw [window, found, extra] at ok
  simpa [discovering, owns] using ok

theorem Matches.withoutInterface {iface owner owner' endsMs : Nat} {w : Window} {s' : Discovery}
    (now : s.Matches cfg dest owner endsMs w)
    (marker : s'.peerLinkReoriginations dest = s.peerLinkReoriginations dest)
    (peer : s'.requestPeers dest = none ∨ s'.requestPeers dest = s.requestPeers dest)
    (askers : ∀ other, (other = owner ∨ other ∈ s.extraRequesters dest) ∧ other ≠ iface ↔
      other = owner' ∨ other ∈ s'.extraRequesters dest)
    (cadence : w.discovering = true → s.discovers owner' = true)
    (interfaces : s'.interfaces = Function.update s.interfaces iface none) (lastRetryMs : s'.lastRetryMs = s.lastRetryMs)
    (nowMs : s'.nowMs = s.nowMs) :
    s'.Matches cfg dest owner' endsMs { w with askers := w.askers.filter (· ≠ iface) } := by
  have stays : ∀ other, (other = owner' ∨ other ∈ s'.extraRequesters dest) → s'.interfaces other = s.interfaces other := by
    intro other asked
    rw [interfaces]
    exact Function.update_of_ne ((askers other).mpr asked).2 _ _
  have asked : ∀ other, other ∈ w.askers.filter (· ≠ iface) ↔ other = owner' ∨ other ∈ s'.extraRequesters dest := by
    intro other
    rw [← askers, ← now.askers, List.mem_filter, decide_eq_true_iff]
  refine ⟨now.transport, marker.trans now.marker, ?_, asked, ?_, ?_, lastRetryMs ▸ now.retried, ?_⟩
  · rcases peer with none_ | same
    · exact .inl none_
    · rw [same]
      exact now.peer
  · intro discovering
    refine ⟨?_, (now.cadence discovering).2⟩
    unfold discovers
    rw [stays owner' (.inl rfl)]
    exact cadence discovering
  · intro other member
    rw [stays other ((asked other).mp member)]
    exact now.registered other (List.mem_filter.mp member).1
  · rw [lastRetryMs, nowMs]
    exact now.recent

theorem Coupled.interfaceDown (now : Coupled cfg dest (s, h)) {iface : Nat}
    (ok : sound cfg dest (s, h) (.interfaceDown iface) = true) :
    Coupled cfg dest (advance cfg dest (s, h) (.interfaceDown iface)) := by
  obtain ⟨fits, positive, interfaces, lastRetryMs, nowMs⟩ := foldl_cullWindow_rest iface
    (s.requests.entries.map Prod.fst) (s := s.withoutRequester iface) now.fits now.positive
  have behind : (s.handle cfg (.interfaceDown iface)).1.lastRetryMs ≤ (s.handle cfg (.interfaceDown iface)).1.nowMs :=
    Nat.le_trans (Nat.le_of_eq lastRetryMs) (Nat.le_trans now.clock (Nat.le_of_eq nowMs.symm))
  have modes : (s.handle cfg (.interfaceDown iface)).1.interfaces = Function.update s.interfaces iface none := by
    show Function.update (s.removeRequestersForInterface iface).interfaces iface none = _
    exact congrArg (Function.update · iface none) interfaces
  have window : ∀ owner endsMs owner' w, s.requests.get? dest = some (owner, endsMs) → h.window = some w →
      (s.handle cfg (.interfaceDown iface)).1.requests.get? dest = some (owner', endsMs) →
      windowAfter cfg dest s h (.interfaceDown iface) = some { w with askers := w.askers.filter (· ≠ iface) } := by
    intro owner endsMs owner' w found here found'
    rw [windowAfter_stays (BoundedMap.contains_of_get? found) (BoundedMap.contains_of_get? found'), here]
    rfl
  cases removeRequestersForInterface_culled iface dest now.fits now.positive with
  | kept stays row side =>
    cases found : s.requests.get? dest with
    | none =>
      refine .over fits positive behind (row.trans found) fun fresh => ?_
      have bare := now.closed found fresh
      exact ⟨side.extra.trans (by rw [withoutRequester]; dsimp only; rw [bare.1]; rfl), side.marker.trans bare.2.1,
        side.peer.trans bare.2.2⟩
    | some entry =>
      obtain ⟨owner, endsMs⟩ := entry
      obtain ⟨w, here, matches_⟩ := now.opened owner endsMs found
      have apart : owner ≠ iface := by
        rintro rfl
        exact stays endsMs found
      refine .going fits positive behind (row.trans found) (window owner endsMs owner w found here (row.trans found)) ?_
      refine matches_.withoutInterface side.marker (.inr side.peer) ?_ (fun on => (matches_.cadence on).1) modes
        lastRetryMs nowMs
      intro other
      show _ ↔ other = owner ∨ other ∈ (s.removeRequestersForInterface iface).extraRequesters dest
      rw [side.extra, withoutRequester, List.mem_filter, decide_eq_true_iff, or_and_right]
      constructor
      · rintro (⟨rfl, -⟩ | asked)
        · exact .inl rfl
        · exact .inr asked
      · rintro (rfl | asked)
        · exact .inl ⟨rfl, apart⟩
        · exact .inr asked
  | handed endsMs heir others found extra found' marker peer extra' =>
    obtain ⟨w, here, matches_⟩ := now.opened iface endsMs found
    refine .going fits positive behind found' (window iface endsMs heir w found here found') ?_
    refine matches_.withoutInterface marker (.inl peer) ?_
      (fun on => sound_interfaceDown ok here found extra on rfl) modes lastRetryMs nowMs
    intro other
    have left : other ∈ heir :: others ↔ other ∈ s.extraRequesters dest ∧ other ≠ iface := by
      rw [← extra, withoutRequester, List.mem_filter, decide_eq_true_iff]
    show _ ↔ other = heir ∨ other ∈ (s.removeRequestersForInterface iface).extraRequesters dest
    rw [extra', ← List.mem_cons (l := others), left]
    constructor
    · rintro ⟨same | asked, apart⟩
      · exact absurd same apart
      · exact ⟨asked, apart⟩
    · exact fun asked => ⟨.inr asked.1, asked.2⟩
  | dropped endsMs found extra gone marker peer extra' =>
    exact .over fits positive behind gone fun _ => ⟨extra', marker, peer⟩

theorem Coupled.step {at_ after : Discovery × History} {e : Event} (now : Coupled cfg dest at_)
    (ok : sound cfg dest at_ e = true) (stepped : watch cfg dest at_ e = some after) : Coupled cfg dest after := by
  unfold watch at stepped
  split at stepped
  next enabled_ =>
    cases stepped
    cases e with
    | request r =>
      obtain ⟨clock, registered⟩ := Bool.and_eq_true_iff.mp enabled_
      by_cases own : dest = r.dest
      · subst own
        exact now.ownRequest (of_decide_eq_true clock) registered ok
      · exact now.otherRequest (of_decide_eq_true clock) own
    | announce nowMs update => exact now.announce (of_decide_eq_true (Bool.and_eq_true_iff.mp enabled_).1) update
    | poll nowMs => exact now.poll (of_decide_eq_true enabled_)
    | retry nowMs limited => exact now.retry (of_decide_eq_true enabled_) limited
    | interfaceUp iface mode => exact now.interfaceUp mode (Option.isNone_iff_eq_none.mp enabled_)
    | interfaceDown iface => exact now.interfaceDown ok
    | requestedPath nowMs other => exact now.requestedPath (of_decide_eq_true enabled_) other
  next => cases stepped

end Step

end Leviculum.Transport.Discovery
