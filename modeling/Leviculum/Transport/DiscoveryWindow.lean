import Leviculum.Transport.Discovery
import Leviculum.Lib.Execution

/-! A discovery window and what the tables of a node hold of it. Beside the tables stands the history
of the window: who opened it, who asked within it, when it was last retried. -/

namespace Leviculum.Transport.Discovery

structure Window where
  /-- It was opened on an interface that discovers paths. -/
  discovering : Bool
  overPeerLinks : Bool
  peer : Option TruncatedHash
  openedMs : Nat
  /-- The interfaces that asked and are still there. -/
  askers : List Nat
  retriedMs : Option Nat
  deriving DecidableEq

structure History where
  window : Option Window
  /-- The last window expired or was evicted, and no retry pass was due since. -/
  lapsed : Bool
  deriving DecidableEq

def retriesOf (dest : TruncatedHash) (sent : List Outgoing) : Nat :=
  sent.countP fun
    | .broadcast d _ _ _ => d = dest
    | _ => false

def responsesTo (dest : TruncatedHash) (iface : Nat) (sent : List Outgoing) : Nat :=
  sent.countP fun
    | .pathResponse d i _ => d = dest ∧ i = iface
    | _ => false

def firstAsk (cfg : NodeConfig) (s : Discovery) (r : PathRequest) : Window where
  discovering := s.discovers r.iface
  overPeerLinks := !s.active cfg r
  peer := if s.active cfg r then r.ingressPeer else none
  openedMs := r.nowMs
  askers := [r.iface]
  retriedMs := none

def Window.after (cfg : NodeConfig) (dest : TruncatedHash) (s : Discovery) (w : Window) : Event → Window
  | .request r => if r.dest = dest ∧ r.asks cfg then { w with askers := r.iface :: w.askers } else w
  | .interfaceDown iface => { w with askers := w.askers.filter (· ≠ iface) }
  | .retry nowMs limited =>
    if retriesOf dest (s.handle cfg (.retry nowMs limited)).2 = 0 then w
    else { w with retriedMs := some nowMs }
  | _ => w

def windowAfter (cfg : NodeConfig) (dest : TruncatedHash) (s : Discovery) (h : History) (e : Event) :
    Option Window :=
  if (s.handle cfg e).1.requests.contains dest then
    if s.requests.contains dest then h.window.map fun w => w.after cfg dest s e
    else
      match e with
      | .request r => some (s.firstAsk cfg r)
      | _ => none
  else none

def lapsedAfter (cfg : NodeConfig) (dest : TruncatedHash) (s : Discovery) (h : History) (e : Event) : Bool :=
  let ended := s.requests.contains dest && !(s.handle cfg e).1.requests.contains dest
  match e with
  | .request _ | .poll _ => h.lapsed || ended
  | .retry nowMs _ => h.lapsed && !s.retryDue nowMs
  | _ => h.lapsed

def advance (cfg : NodeConfig) (dest : TruncatedHash) (at_ : Discovery × History) (e : Event) :
    Discovery × History :=
  ((at_.1.handle cfg e).1,
    { window := windowAfter cfg dest at_.1 at_.2 e, lapsed := lapsedAfter cfg dest at_.1 at_.2 e })

def watch (cfg : NodeConfig) (dest : TruncatedHash) (at_ : Discovery × History) (e : Event) :
    Option (Discovery × History) :=
  if at_.1.enabled e then some (advance cfg dest at_ e) else none

def start (capacity : Nat) : Discovery × History := (empty capacity, { window := none, lapsed := false })

structure Orderly (cfg : NodeConfig) (dest : TruncatedHash) (before : Discovery × History) (e : Event)
    (after : Discovery × History) : Prop where
  opened : before.1.requests.contains dest = false → after.1.requests.contains dest = true →
    ∃ w, after.2.window = some w ∧ after.1.extraRequesters dest = [] ∧
      after.1.peerLinkReoriginations dest = w.overPeerLinks ∧ after.1.requestPeers dest = w.peer
  carries : after.1.requests.contains dest = true →
    ∃ w, after.2.window = some w ∧ (∀ iface ∈ after.1.extraRequesters dest, iface ∈ w.askers) ∧
      (after.1.peerLinkReoriginations dest = true → w.overPeerLinks = true) ∧
      (∀ peer, after.1.requestPeers dest = some peer → w.peer = some peer)
  retried : ∀ nowMs limited w owner endsMs, e = .retry nowMs limited → before.2.window = some w →
    w.discovering = true → before.1.requests.get? dest = some (owner, endsMs) → nowMs < endsMs →
    retriesOf dest (before.1.handle cfg e).2 ≤ 1 ∧
      (w.retriedMs.getD w.openedMs + discoveryRetryIntervalMs ≤ nowMs →
        retriesOf dest (before.1.handle cfg e).2 = 1) ∧
      (retriesOf dest (before.1.handle cfg e).2 = 1 →
        ∀ last, w.retriedMs = some last → last + discoveryRetryIntervalMs ≤ nowMs)
  answered : ∀ nowMs update w owner endsMs, e = .announce nowMs update → update.dest = dest →
    before.2.window = some w → before.1.requests.get? dest = some (owner, endsMs) → nowMs < endsMs →
    ∀ iface, responsesTo dest iface (before.1.handle cfg e).2 =
      if iface ∈ w.askers ∧ (update.localDestination || !update.dutyHold iface) then 1 else 0

def opens (cfg : NodeConfig) (s : Discovery) (r : PathRequest) : Bool :=
  !s.requests.contains r.dest && (s.active cfg r ||
    (!(cfg.enableTransport && s.discovers r.iface && r.burstLimited) && s.reorigination cfg r))

/-- A window is opened after the records of a lapsed one were pruned, a request within it is taken
up, and its cadence is not inherited by an interface that does not discover. -/
def sound (cfg : NodeConfig) (dest : TruncatedHash) (at_ : Discovery × History) : Event → Bool
  | .request r =>
    !(r.dest = dest && r.asks cfg) ||
      (if at_.1.requests.contains dest then at_.1.active cfg r else !at_.1.opens cfg r || !at_.2.lapsed)
  | .interfaceDown iface =>
    match at_.2.window, at_.1.requests.get? dest, (at_.1.extraRequesters dest).filter (· ≠ iface) with
    | some w, some (owner, _), heir :: _ => !(w.discovering && owner = iface) || at_.1.discovers heir
    | _, _, _ => true
  | _ => true

/-! ### What the operations do -/

theorem handlePathRequest_cases (cfg : NodeConfig) (s : Discovery) (r : PathRequest) :
    ((s.handlePathRequest cfg r).1 = s ∧ (r.asks cfg = true → s.active cfg r = false ∧ s.opens cfg r = false)) ∨
    (r.asks cfg = true ∧ s.active cfg r = true ∧ s.requests.contains r.dest = true ∧
      (s.handlePathRequest cfg r).1 = s.rememberExtraRequester r.dest r.iface) ∨
    (r.asks cfg = true ∧ s.active cfg r = true ∧ s.requests.contains r.dest = false ∧
      (s.handlePathRequest cfg r).1 = s.openWindow r) ∨
    (r.asks cfg = true ∧ s.active cfg r = false ∧ s.reorigination cfg r = true ∧ s.opens cfg r = true ∧
      s.discovers r.iface = false ∧ (s.handlePathRequest cfg r).1 = (s.reoriginateTowardPeerLinks cfg r).1) := by
  by_cases settled : r.settled cfg = true
  · exact .inl ⟨by rw [handlePathRequest, if_pos settled], by simp [PathRequest.asks, settled]⟩
  by_cases fromLocal : r.fromLocal = true
  · exact .inl ⟨by rw [handlePathRequest, if_neg settled, if_pos fromLocal], by simp [PathRequest.asks, fromLocal]⟩
  have asks : r.asks cfg = true := by simp [PathRequest.asks, settled, fromLocal]
  have reached : s.handlePathRequest cfg r = s.discover cfg r := by
    rw [handlePathRequest, if_neg settled, if_neg fromLocal]
  rw [reached]
  by_cases limited : (cfg.enableTransport && s.discovers r.iface && r.burstLimited) = true
  · have burst : r.burstLimited = true := by simp_all
    have idle : s.active cfg r = false := by simp [active, burst]
    exact .inl ⟨by rw [discover, if_pos limited], fun _ => ⟨idle, by simp [opens, idle, limited]⟩⟩
  by_cases isActive : s.active cfg r = true
  · by_cases pending : s.requests.contains r.dest = true
    · exact .inr (.inl ⟨asks, isActive, pending, by rw [discover, if_neg limited, if_pos isActive, if_pos pending]⟩)
    · refine .inr (.inr (.inl ⟨asks, isActive, Bool.eq_false_iff.mpr pending, ?_⟩))
      rw [discover, if_neg limited, if_pos isActive, if_neg pending]
  · have idle : s.active cfg r = false := Bool.eq_false_iff.mpr isActive
    have here : (s.discover cfg r).1 = (s.reoriginateTowardPeerLinks cfg r).1 := by
      rw [discover, if_neg limited, if_neg isActive]
    by_cases again : s.reorigination cfg r = true
    · have both : cfg.enableTransport = true ∧ s.requests.contains r.dest = false := by
        simp only [reorigination, Bool.and_eq_true, Bool.not_eq_true'] at again
        exact ⟨again.1.1.1.1, again.2⟩
      -- A request on a discovering interface that is not active was stopped by the limiter.
      have passive : s.discovers r.iface = false := by
        simp only [both.1, Bool.true_and] at limited
        simp only [active, both.1, Bool.true_and] at idle
        revert limited idle
        cases s.discovers r.iface <;> cases r.burstLimited <;> simp
      exact .inr (.inr (.inr ⟨asks, idle, again, by simp [opens, both.2, again, passive], passive, here⟩))
    · refine .inl ⟨by rw [here, reoriginateTowardPeerLinks, if_neg again], fun _ => ⟨idle, ?_⟩⟩
      simp [opens, idle, Bool.eq_false_iff.mpr again]

/-- Nothing recorded for the destination changed beside its row. -/
structure SameSide (dest : TruncatedHash) (s s' : Discovery) : Prop where
  marker : s'.peerLinkReoriginations dest = s.peerLinkReoriginations dest
  peer : s'.requestPeers dest = s.requestPeers dest
  extra : s'.extraRequesters dest = s.extraRequesters dest

theorem SameSide.trans {dest : TruncatedHash} {s t u : Discovery} (first : SameSide dest s t)
    (second : SameSide dest t u) : SameSide dest s u :=
  ⟨second.marker.trans first.marker, second.peer.trans first.peer, second.extra.trans first.extra⟩

theorem cullWindow_other (iface : Nat) {s : Discovery} {dest other : TruncatedHash} (apart : dest ≠ other)
    (fits : s.requests.Fits) :
    (s.cullWindow iface other).requests.get? dest = s.requests.get? dest ∧
      SameSide dest s (s.cullWindow iface other) := by
  unfold cullWindow
  split
  · exact ⟨rfl, rfl, rfl, rfl⟩
  next owner timeoutMs found =>
    split
    · exact ⟨rfl, rfl, rfl, rfl⟩
    · split
      · exact ⟨BoundedMap.get?_erase_of_ne apart, Function.update_of_ne apart _ _, Function.update_of_ne apart _ _,
          Function.update_of_ne apart _ _⟩
      · refine ⟨?_, rfl, Function.update_of_ne apart _ _, Function.update_of_ne apart _ _⟩
        show ((s.requests.erase other).insertIfAbsent other _).get? dest = _
        rw [BoundedMap.insertIfAbsent, BoundedMap.contains_eq_false.mpr (BoundedMap.get?_erase_self _ _),
          if_neg Bool.false_ne_true, BoundedMap.get?_insert_of_room (fits.hasRoom_erase found), if_neg apart,
          BoundedMap.get?_erase_of_ne apart]

theorem cullWindow_fits (iface : Nat) {s : Discovery} (dest : TruncatedHash) (fits : s.requests.Fits)
    (positive : 0 < s.requests.capacity) :
    (s.cullWindow iface dest).requests.Fits ∧ 0 < (s.cullWindow iface dest).requests.capacity := by
  unfold cullWindow
  split
  · exact ⟨fits, positive⟩
  next owner timeoutMs found =>
    split
    · exact ⟨fits, positive⟩
    · split
      · exact ⟨fits.keep _, positive⟩
      · refine ⟨(fits.keep _).insertIfAbsent positive _ _, ?_⟩
        rw [BoundedMap.insertIfAbsent]
        split <;> exact positive

theorem cullWindow_rest (iface : Nat) (s : Discovery) (dest : TruncatedHash) :
    (s.cullWindow iface dest).interfaces = s.interfaces ∧ (s.cullWindow iface dest).lastRetryMs = s.lastRetryMs ∧
      (s.cullWindow iface dest).nowMs = s.nowMs := by
  unfold cullWindow
  split
  · exact ⟨rfl, rfl, rfl⟩
  · split
    · exact ⟨rfl, rfl, rfl⟩
    · split <;> exact ⟨rfl, rfl, rfl⟩

/-- What the loss of an interface does to the window of a destination. -/
inductive Culled (iface : Nat) (dest : TruncatedHash) (s s' : Discovery) : Prop
  | kept (stays : ∀ endsMs, s.requests.get? dest ≠ some (iface, endsMs))
      (row : s'.requests.get? dest = s.requests.get? dest) (side : SameSide dest s s')
  | handed (endsMs heir : Nat) (others : List Nat) (row : s.requests.get? dest = some (iface, endsMs))
      (extra : s.extraRequesters dest = heir :: others) (row' : s'.requests.get? dest = some (heir, endsMs))
      (marker : s'.peerLinkReoriginations dest = s.peerLinkReoriginations dest)
      (peer : s'.requestPeers dest = none) (extra' : s'.extraRequesters dest = others)
  | dropped (endsMs : Nat) (row : s.requests.get? dest = some (iface, endsMs)) (extra : s.extraRequesters dest = [])
      (row' : s'.requests.get? dest = none) (marker : s'.peerLinkReoriginations dest = false)
      (peer : s'.requestPeers dest = none) (extra' : s'.extraRequesters dest = [])

theorem cullWindow_self (iface : Nat) (s : Discovery) (dest : TruncatedHash) :
    Culled iface dest s (s.cullWindow iface dest) := by
  unfold cullWindow
  split
  next absent => exact .kept (by simp [absent]) rfl ⟨rfl, rfl, rfl⟩
  next owner endsMs found =>
    split
    next other =>
      refine .kept ?_ rfl ⟨rfl, rfl, rfl⟩
      intro ends same
      rw [found] at same
      cases same
      exact other rfl
    next owns =>
      obtain rfl : owner = iface := Classical.not_not.mp owns
      split
      next extra =>
        exact .dropped endsMs found extra (BoundedMap.get?_erase_self _ _) (Function.update_self ..)
          (Function.update_self ..) (Function.update_self ..)
      next heir others extra =>
        exact .handed endsMs heir others found extra
          (BoundedMap.get?_insertIfAbsent_self (BoundedMap.get?_erase_self _ _) _) rfl
          (Function.update_self ..) (Function.update_self ..)

theorem foldl_cullWindow_absent (iface : Nat) {dest : TruncatedHash} {dests : List TruncatedHash}
    (absent : dest ∉ dests) {s : Discovery} (fits : s.requests.Fits) (positive : 0 < s.requests.capacity) :
    (dests.foldl (cullWindow iface) s).requests.get? dest = s.requests.get? dest ∧
      SameSide dest s (dests.foldl (cullWindow iface) s) := by
  induction dests generalizing s with
  | nil => exact ⟨rfl, rfl, rfl, rfl⟩
  | cons first rest ih =>
    have apart : dest ≠ first := fun same => absent (same ▸ List.mem_cons_self)
    obtain ⟨row, side⟩ := cullWindow_other iface apart fits
    obtain ⟨fits', positive'⟩ := cullWindow_fits iface first fits positive
    obtain ⟨row', side'⟩ := ih (fun later => absent (List.mem_cons_of_mem _ later)) fits' positive'
    exact ⟨row'.trans row, side.trans side'⟩

theorem foldl_cullWindow_rest (iface : Nat) (dests : List TruncatedHash) {s : Discovery} (fits : s.requests.Fits)
    (positive : 0 < s.requests.capacity) :
    let s' := dests.foldl (cullWindow iface) s
    s'.requests.Fits ∧ 0 < s'.requests.capacity ∧ s'.interfaces = s.interfaces ∧ s'.lastRetryMs = s.lastRetryMs ∧
      s'.nowMs = s.nowMs := by
  induction dests generalizing s with
  | nil => exact ⟨fits, positive, rfl, rfl, rfl⟩
  | cons first rest ih =>
    obtain ⟨interfaces, lastRetryMs, nowMs⟩ := cullWindow_rest iface s first
    obtain ⟨fits', positive'⟩ := cullWindow_fits iface first fits positive
    obtain ⟨fits'', positive'', interfaces', lastRetryMs', nowMs'⟩ := ih fits' positive'
    exact ⟨fits'', positive'', interfaces'.trans interfaces, lastRetryMs'.trans lastRetryMs, nowMs'.trans nowMs⟩

/-- The batched requests of an interface go first. -/
def withoutRequester (s : Discovery) (iface : Nat) : Discovery :=
  { s with extraRequesters := fun dest => (s.extraRequesters dest).filter (· ≠ iface) }

theorem SameSide.culled {iface : Nat} {dest : TruncatedHash} {s t t' u : Discovery}
    (row : t.requests.get? dest = s.requests.get? dest) (side : SameSide dest s t) (cull : Culled iface dest t t')
    (row' : u.requests.get? dest = t'.requests.get? dest) (side' : SameSide dest t' u) : Culled iface dest s u := by
  cases cull with
  | kept stays same within =>
    exact .kept (row ▸ stays) (row'.trans (same.trans row)) ((side.trans within).trans side')
  | handed endsMs heir others found extra found' marker peer extra' =>
    exact .handed endsMs heir others (row ▸ found) (side.extra ▸ extra) (row'.trans found')
      (side'.marker.trans (marker.trans side.marker)) (side'.peer.trans peer) (side'.extra.trans extra')
  | dropped endsMs found extra gone marker peer extra' =>
    exact .dropped endsMs (row ▸ found) (side.extra ▸ extra) (row'.trans gone) (side'.marker.trans marker)
      (side'.peer.trans peer) (side'.extra.trans extra')

theorem removeRequestersForInterface_culled (iface : Nat) (dest : TruncatedHash) {s : Discovery}
    (fits : s.requests.Fits) (positive : 0 < s.requests.capacity) :
    Culled iface dest (s.withoutRequester iface) (s.removeRequestersForInterface iface) := by
  show Culled iface dest (s.withoutRequester iface)
    ((s.requests.entries.map Prod.fst).foldl (cullWindow iface) (s.withoutRequester iface))
  by_cases member : dest ∈ s.requests.entries.map Prod.fst
  · obtain ⟨before, after, shape⟩ := List.append_of_mem member
    have distinct := s.requests.nodup
    rw [shape] at distinct ⊢
    rw [List.nodup_append', List.nodup_cons] at distinct
    have first : dest ∉ before := fun there => distinct.2.2 there List.mem_cons_self
    rw [List.foldl_append, List.foldl_cons]
    obtain ⟨row, side⟩ := foldl_cullWindow_absent iface (s := s.withoutRequester iface) first fits positive
    obtain ⟨fits', positive', -⟩ := foldl_cullWindow_rest iface before (s := s.withoutRequester iface) fits positive
    obtain ⟨fits'', positive''⟩ := cullWindow_fits iface dest fits' positive'
    obtain ⟨row', side'⟩ := foldl_cullWindow_absent iface distinct.2.1.1 fits'' positive''
    exact side.culled row (cullWindow_self iface _ dest) row' side'
  · obtain ⟨row, side⟩ := foldl_cullWindow_absent iface (s := s.withoutRequester iface) member fits positive
    refine .kept ?_ row side
    intro endsMs found
    exact member (List.mem_map_of_mem (BoundedMap.get?_eq_some.mp found))

end Leviculum.Transport.Discovery
