import Leviculum.Transport.DiscoveryWindow

/-! What the tables of a node hold of a window is what its history tells, and a path request keeps it so. -/

namespace Leviculum.Transport.Discovery

/-- What the tables hold is what the history of the open window tells. -/
structure Matches (cfg : NodeConfig) (s : Discovery) (dest : TruncatedHash) (owner endsMs : Nat) (w : Window) :
    Prop where
  transport : cfg.enableTransport = true
  marker : s.peerLinkReoriginations dest = w.overPeerLinks
  peer : s.requestPeers dest = none ∨ s.requestPeers dest = w.peer
  askers : ∀ iface, iface ∈ w.askers ↔ iface = owner ∨ iface ∈ s.extraRequesters dest
  cadence : w.discovering = true → s.discovers owner = true ∧ w.overPeerLinks = false
  registered : ∀ iface ∈ w.askers, (s.interfaces iface).isSome
  retried : ∀ last, w.retriedMs = some last → last ≤ s.lastRetryMs
  recent : w.discovering = true → s.nowMs < endsMs → s.lastRetryMs ≤ w.retriedMs.getD w.openedMs

structure Coupled (cfg : NodeConfig) (dest : TruncatedHash) (at_ : Discovery × History) : Prop where
  fits : at_.1.requests.Fits
  positive : 0 < at_.1.requests.capacity
  clock : at_.1.lastRetryMs ≤ at_.1.nowMs
  closed : at_.1.requests.get? dest = none → at_.2.lapsed = false →
    at_.1.extraRequesters dest = [] ∧ at_.1.peerLinkReoriginations dest = false ∧ at_.1.requestPeers dest = none
  opened : ∀ owner endsMs, at_.1.requests.get? dest = some (owner, endsMs) →
    ∃ w, at_.2.window = some w ∧ at_.1.Matches cfg dest owner endsMs w

theorem coupled_start (cfg : NodeConfig) (dest : TruncatedHash) (capacity : Nat) :
    Coupled cfg dest (start capacity) where
  fits := Nat.zero_le _
  positive := Nat.le_max_right capacity 1
  clock := Nat.le_refl 0
  closed _ _ := ⟨rfl, rfl, rfl⟩
  opened _ _ found := by cases found

theorem Coupled.going {cfg : NodeConfig} {dest : TruncatedHash} {s : Discovery} {h : History} {owner endsMs : Nat}
    {w : Window} (fits : s.requests.Fits) (positive : 0 < s.requests.capacity) (clock : s.lastRetryMs ≤ s.nowMs)
    (row : s.requests.get? dest = some (owner, endsMs)) (window : h.window = some w)
    (matches_ : s.Matches cfg dest owner endsMs w) : Coupled cfg dest (s, h) where
  fits := fits
  positive := positive
  clock := clock
  closed absent := by
    rw [row] at absent
    cases absent
  opened owner' endsMs' found := by
    rw [row] at found
    cases found
    exact ⟨w, window, matches_⟩

theorem Coupled.over {cfg : NodeConfig} {dest : TruncatedHash} {s : Discovery} {h : History}
    (fits : s.requests.Fits) (positive : 0 < s.requests.capacity) (clock : s.lastRetryMs ≤ s.nowMs)
    (row : s.requests.get? dest = none) (bare : h.lapsed = false → s.extraRequesters dest = [] ∧
      s.peerLinkReoriginations dest = false ∧ s.requestPeers dest = none) : Coupled cfg dest (s, h) where
  fits := fits
  positive := positive
  clock := clock
  closed _ := bare
  opened owner endsMs found := by
    rw [row] at found
    cases found

theorem Matches.later {cfg : NodeConfig} {s s' : Discovery} {dest : TruncatedHash} {owner endsMs : Nat} {w : Window}
    (now : s.Matches cfg dest owner endsMs w) (side : SameSide dest s s')
    (interfaces : ∀ iface, (s.interfaces iface).isSome → s'.interfaces iface = s.interfaces iface)
    (lastRetryMs : s'.lastRetryMs = s.lastRetryMs) (clock : s.nowMs ≤ s'.nowMs) : s'.Matches cfg dest owner endsMs w where
  transport := now.transport
  marker := side.marker.trans now.marker
  peer := by rw [side.peer]; exact now.peer
  askers := by rw [side.extra]; exact now.askers
  cadence := by
    have known := now.registered owner ((now.askers owner).mpr (.inl rfl))
    unfold discovers
    rw [interfaces owner known]
    exact now.cadence
  registered iface member := by
    rw [interfaces iface (now.registered iface member)]
    exact now.registered iface member
  retried := by rw [lastRetryMs]; exact now.retried
  recent discovering pending := by rw [lastRetryMs]; exact now.recent discovering (Nat.lt_of_le_of_lt clock pending)

theorem mem_addRequester {iface other : Nat} {ifaces : List Nat} :
    other ∈ addRequester iface ifaces ↔ other = iface ∨ other ∈ ifaces := by
  unfold addRequester
  split
  next member => exact ⟨.inr, fun or => or.elim (fun same => same ▸ member) id⟩
  · exact List.mem_orderedInsert _

theorem Matches.remember {cfg : NodeConfig} {s : Discovery} {dest : TruncatedHash} {owner endsMs : Nat} {w : Window}
    (now : s.Matches cfg dest owner endsMs w) (found : s.requests.get? dest = some (owner, endsMs)) {iface : Nat}
    (registered : (s.interfaces iface).isSome) :
    (s.rememberExtraRequester dest iface).requests.get? dest = some (owner, endsMs) ∧
      (s.rememberExtraRequester dest iface).Matches cfg dest owner endsMs { w with askers := iface :: w.askers } := by
  have known : ∀ i ∈ iface :: w.askers, (s.interfaces i).isSome := by
    intro i member
    rcases List.mem_cons.mp member with rfl | earlier
    · exact registered
    · exact now.registered i earlier
  unfold rememberExtraRequester
  rw [found, Option.map_some]
  split
  next owns =>
    cases owns
    refine ⟨found, { now with askers := ?_, registered := known }⟩
    intro i
    rw [List.mem_cons, now.askers]
    exact ⟨fun or => or.elim .inl id, .inr⟩
  · refine ⟨found, { now with askers := ?_, registered := known }⟩
    intro i
    show i ∈ iface :: w.askers ↔ i = owner ∨ i ∈ Function.update s.extraRequesters dest _ dest
    rw [Function.update_self, mem_addRequester, List.mem_cons, now.askers]
    exact or_left_comm

theorem Coupled.drift {cfg : NodeConfig} {dest : TruncatedHash} {s s' : Discovery} {h h' : History}
    (now : Coupled cfg dest (s, h)) (fits : s'.requests.Fits) (positive : 0 < s'.requests.capacity)
    (clock : s.nowMs ≤ s'.nowMs) (side : SameSide dest s s')
    (interfaces : ∀ iface, (s.interfaces iface).isSome → s'.interfaces iface = s.interfaces iface)
    (lastRetryMs : s'.lastRetryMs = s.lastRetryMs)
    (row : (s'.requests.get? dest = s.requests.get? dest ∧ (h'.lapsed = false → h.lapsed = false)) ∨
      (s'.requests.get? dest = none ∧ h'.lapsed = true))
    (window : s.requests.contains dest = true → s'.requests.contains dest = true → h'.window = h.window) :
    Coupled cfg dest (s', h') where
  fits := fits
  positive := positive
  clock := by rw [lastRetryMs]; exact Nat.le_trans now.clock clock
  closed absent fresh := by
    rcases row with ⟨same, lapsed⟩ | ⟨-, lapsed⟩
    · dsimp only
      rw [side.extra, side.marker, side.peer]
      exact now.closed (same ▸ absent) (lapsed fresh)
    · rw [lapsed] at fresh
      cases fresh
  opened owner endsMs found := by
    rcases row with ⟨same, -⟩ | ⟨gone, -⟩
    · have found_ := same ▸ found
      obtain ⟨w, here, matches_⟩ := now.opened owner endsMs found_
      refine ⟨w, ?_, matches_.later side interfaces lastRetryMs clock⟩
      exact (window (BoundedMap.contains_of_get? found_) (BoundedMap.contains_of_get? found)).trans here
    · rw [gone] at found
      cases found

theorem windowAfter_stays {cfg : NodeConfig} {dest : TruncatedHash} {s : Discovery} {h : History} {e : Event}
    (before : s.requests.contains dest = true) (after : (s.handle cfg e).1.requests.contains dest = true) :
    windowAfter cfg dest s h e = h.window.map fun w => w.after cfg dest s e := by
  unfold windowAfter
  rw [if_pos after, if_pos before]

theorem windowAfter_same {cfg : NodeConfig} {dest : TruncatedHash} {s : Discovery} {h : History} {e : Event}
    (same : ∀ w : Window, w.after cfg dest s e = w) (before : s.requests.contains dest = true)
    (after : (s.handle cfg e).1.requests.contains dest = true) : windowAfter cfg dest s h e = h.window := by
  rw [windowAfter_stays before after, show (fun w => Window.after cfg dest s w e) = id from funext same, Option.map_id,
    id]

theorem lapse_noted {s s' : Discovery} {dest : TruncatedHash} (lapsed : Bool)
    (row : s'.requests.get? dest = s.requests.get? dest ∨ s'.requests.get? dest = none) :
    (s'.requests.get? dest = s.requests.get? dest ∧
      ((lapsed || (s.requests.contains dest && !s'.requests.contains dest)) = false → lapsed = false)) ∨
    (s'.requests.get? dest = none ∧
      (lapsed || (s.requests.contains dest && !s'.requests.contains dest)) = true) := by
  by_cases same : s'.requests.get? dest = s.requests.get? dest
  · exact .inl ⟨same, fun none_ => (Bool.or_eq_false_iff.mp none_).1⟩
  · have gone : s'.requests.get? dest = none := row.resolve_left same
    have was : s.requests.contains dest = true := by
      rw [BoundedMap.contains, Option.isSome_iff_ne_none]
      exact fun absent => same (gone.trans absent.symm)
    refine .inr ⟨gone, ?_⟩
    rw [was, BoundedMap.contains_eq_false.mpr gone]
    exact Bool.or_true _

theorem insertIfAbsent_capacity {m : Table (Nat × Nat)} (positive : 0 < m.capacity) (key : TruncatedHash)
    (value : Nat × Nat) : 0 < (m.insertIfAbsent key value).capacity := by
  unfold BoundedMap.insertIfAbsent
  split <;> exact positive

/-- A request for another destination may evict the window, nothing else. -/
structure Aside (dest : TruncatedHash) (s s' : Discovery) : Prop where
  fits : s'.requests.Fits
  positive : 0 < s'.requests.capacity
  side : SameSide dest s s'
  row : s'.requests.get? dest = s.requests.get? dest ∨ s'.requests.get? dest = none
  interfaces : s'.interfaces = s.interfaces
  lastRetryMs : s'.lastRetryMs = s.lastRetryMs
  nowMs : s'.nowMs = s.nowMs

theorem handlePathRequest_aside (cfg : NodeConfig) {dest : TruncatedHash} {s : Discovery} {r : PathRequest}
    (fits : s.requests.Fits) (positive : 0 < s.requests.capacity) (apart : dest ≠ r.dest) :
    Aside dest s (s.handlePathRequest cfg r).1 := by
  rcases handlePathRequest_cases cfg s r with ⟨stays, -⟩ | ⟨-, -, -, stays⟩ | ⟨-, -, -, stays⟩ | ⟨-, -, again, -, -, stays⟩
  · rw [stays]
    exact ⟨fits, positive, ⟨rfl, rfl, rfl⟩, .inl rfl, rfl, rfl, rfl⟩
  · rw [stays, rememberExtraRequester]
    split
    · exact ⟨fits, positive, ⟨rfl, rfl, rfl⟩, .inl rfl, rfl, rfl, rfl⟩
    · exact ⟨fits, positive, ⟨rfl, rfl, Function.update_of_ne apart _ _⟩, .inl rfl, rfl, rfl, rfl⟩
  · rw [stays]
    exact ⟨fits.insertIfAbsent positive _ _, insertIfAbsent_capacity positive _ _,
      ⟨rfl, Function.update_of_ne apart _ _, rfl⟩, BoundedMap.get?_insertIfAbsent_of_ne _ apart _, rfl, rfl, rfl⟩
  · rw [stays, reoriginateTowardPeerLinks, if_pos again]
    exact ⟨fits.insertIfAbsent positive _ _, insertIfAbsent_capacity positive _ _,
      ⟨Function.update_of_ne apart _ _, rfl, rfl⟩, BoundedMap.get?_insertIfAbsent_of_ne _ apart _, rfl, rfl, rfl⟩

section Request

variable {cfg : NodeConfig} {dest : TruncatedHash} {s : Discovery} {h : History} {r : PathRequest}

theorem Coupled.otherRequest (now : Coupled cfg dest (s, h)) (clock : s.nowMs ≤ r.nowMs) (apart : dest ≠ r.dest) :
    Coupled cfg dest (advance cfg dest (s, h) (.request r)) := by
  have same : ∀ w : Window, w.after cfg dest s (.request r) = w := fun w => if_neg fun both => apart both.1.symm
  have aside := handlePathRequest_aside cfg (s := { s with nowMs := r.nowMs }) now.fits now.positive apart
  exact now.drift aside.fits aside.positive (Nat.le_trans clock (Nat.le_of_eq aside.nowMs.symm))
    ⟨aside.side.marker, aside.side.peer, aside.side.extra⟩ (fun iface _ => congrFun aside.interfaces iface)
    aside.lastRetryMs (lapse_noted h.lapsed aside.row) (windowAfter_same same)

theorem Matches.fresh (now : Coupled cfg dest (s, h)) (clock : s.nowMs ≤ r.nowMs)
    (registered : (s.interfaces r.iface).isSome) (absent : s.requests.get? dest = none) (pruned : h.lapsed = false)
    {s' : Discovery} (transport : cfg.enableTransport = true)
    (marker : s'.peerLinkReoriginations dest = (s.peerLinkReoriginations dest || !s.active cfg r))
    (peer : s'.requestPeers dest = if s.active cfg r then r.ingressPeer else s.requestPeers dest)
    (passive : s.active cfg r = false → s.discovers r.iface = false)
    (extra : s'.extraRequesters dest = s.extraRequesters dest) (interfaces : s'.interfaces = s.interfaces)
    (lastRetryMs : s'.lastRetryMs = s.lastRetryMs) :
    s'.Matches cfg dest r.iface (r.nowMs + discoveryTimeoutMs) (s.firstAsk cfg r) where
  transport := transport
  marker := by rw [marker, (now.closed absent pruned).2.1, Bool.false_or]; rfl
  peer := by
    refine .inr ?_
    rw [peer, show s.requestPeers dest = none from (now.closed absent pruned).2.2]
    rfl
  askers iface := by
    rw [extra, show s.extraRequesters dest = [] from (now.closed absent pruned).1]
    simp [firstAsk]
  cadence discovering := by
    refine ⟨by unfold discovers; rw [interfaces]; exact discovering, ?_⟩
    show (!s.active cfg r) = false
    cases isActive : s.active cfg r with
    | true => rfl
    | false => exact absurd discovering (by simp [firstAsk, passive isActive])
  registered iface member := by
    obtain rfl := List.mem_singleton.mp member
    rw [interfaces]
    exact registered
  retried _ none_ := by cases none_
  recent _ _ := by
    rw [lastRetryMs]
    exact Nat.le_trans now.clock clock

theorem sound_request (ok : sound cfg r.dest (s, h) (.request r) = true) (asks : r.asks cfg = true) :
    (s.requests.contains r.dest = true → s.active cfg r = true) ∧
      (s.requests.contains r.dest = false → s.opens cfg r = true → h.lapsed = false) := by
  simp only [sound, asks, decide_true, Bool.and_self, Bool.not_true, Bool.false_or] at ok
  constructor
  · intro pending
    rwa [if_pos pending] at ok
  · intro absent opens
    simpa [absent, opens] using ok

theorem Coupled.openedBy (now : Coupled cfg r.dest (s, h)) (clock : s.nowMs ≤ r.nowMs)
    (absent : s.requests.get? r.dest = none) {s' : Discovery} (shape : (s.handle cfg (.request r)).1 = s')
    (requests : s'.requests = s.requests.insertIfAbsent r.dest (r.iface, r.nowMs + discoveryTimeoutMs))
    (lastRetryMs : s'.lastRetryMs = s.lastRetryMs) (nowMs : s'.nowMs = r.nowMs)
    (matches_ : s'.Matches cfg r.dest r.iface (r.nowMs + discoveryTimeoutMs) (s.firstAsk cfg r)) :
    Coupled cfg r.dest (advance cfg r.dest (s, h) (.request r)) := by
  have found : s'.requests.get? r.dest = some (r.iface, r.nowMs + discoveryTimeoutMs) := by
    rw [requests, BoundedMap.get?_insertIfAbsent_self absent]
  have window : windowAfter cfg r.dest s h (.request r) = some (s.firstAsk cfg r) := by
    unfold windowAfter
    rw [shape, if_pos (BoundedMap.contains_of_get? found), BoundedMap.contains_eq_false.mpr absent,
      if_neg Bool.false_ne_true]
  unfold advance
  rw [shape]
  refine .going ?_ ?_ ?_ found window matches_
  · rw [requests]
    exact BoundedMap.Fits.insertIfAbsent now.fits now.positive _ _
  · rw [requests]
    exact insertIfAbsent_capacity now.positive _ _
  · rw [lastRetryMs, nowMs]
    exact Nat.le_trans now.clock clock

theorem Coupled.ownRequest (now : Coupled cfg r.dest (s, h)) (clock : s.nowMs ≤ r.nowMs)
    (registered : (s.interfaces r.iface).isSome) (ok : sound cfg r.dest (s, h) (.request r) = true) :
    Coupled cfg r.dest (advance cfg r.dest (s, h) (.request r)) := by
  have effect := handlePathRequest_cases cfg { s with nowMs := r.nowMs } r
  rcases effect with ⟨stays, idle⟩ | ⟨asks, isActive, pending, stays⟩ | ⟨asks, isActive, absent, stays⟩ |
    ⟨asks, idle, again, opens, passive, stays⟩
  · have shape : (s.handle cfg (.request r)).1 = { s with nowMs := r.nowMs } := stays
    refine now.drift (by rw [shape]; exact now.fits) (by rw [shape]; exact now.positive) (by rw [shape]; exact clock)
      (by rw [shape]; exact ⟨rfl, rfl, rfl⟩) (by rw [shape]; exact fun _ _ => rfl) (by rw [shape])
      (lapse_noted _ (.inl (by rw [shape]))) ?_
    intro before after
    refine windowAfter_same (fun w => if_neg ?_) before after
    rintro ⟨-, asks⟩
    exact absurd ((sound_request ok asks).1 before) (by rw [show s.active cfg r = false from (idle asks).1]; simp)
  · have shape : (s.handle cfg (.request r)).1 = { s with nowMs := r.nowMs }.rememberExtraRequester r.dest r.iface :=
      stays
    obtain ⟨⟨owner, endsMs⟩, found⟩ := Option.isSome_iff_exists.mp pending
    obtain ⟨w, here, matches_⟩ := now.opened owner endsMs found
    have clocked : Matches cfg { s with nowMs := r.nowMs } r.dest owner endsMs w :=
      matches_.later ⟨rfl, rfl, rfl⟩ (fun _ _ => rfl) rfl clock
    obtain ⟨row, joined⟩ := clocked.remember found registered
    have rest : ({ s with nowMs := r.nowMs }.rememberExtraRequester r.dest r.iface).requests = s.requests ∧
        ({ s with nowMs := r.nowMs }.rememberExtraRequester r.dest r.iface).lastRetryMs = s.lastRetryMs ∧
        ({ s with nowMs := r.nowMs }.rememberExtraRequester r.dest r.iface).nowMs = r.nowMs := by
      unfold rememberExtraRequester
      split <;> exact ⟨rfl, rfl, rfl⟩
    have window : windowAfter cfg r.dest s h (.request r) = some { w with askers := r.iface :: w.askers } := by
      have stays_ := windowAfter_stays (s := s) (h := h) pending (by rw [shape]; exact BoundedMap.contains_of_get? row)
      rw [stays_, here, Option.map_some]
      exact congrArg some (if_pos ⟨rfl, asks⟩)
    unfold advance
    rw [shape]
    refine .going ?_ ?_ ?_ row window joined
    · rw [rest.1]
      exact now.fits
    · rw [rest.1]
      exact now.positive
    · rw [rest.2.1, rest.2.2]
      exact Nat.le_trans now.clock clock
  · have none_ : s.requests.get? r.dest = none := BoundedMap.contains_eq_false.mp absent
    have isActive_ : s.active cfg r = true := isActive
    have pruned := (sound_request ok asks).2 absent (by simp [opens, isActive_, show s.requests.contains r.dest = false from absent])
    have transport : cfg.enableTransport = true := by
      simp only [active, Bool.and_eq_true, Bool.or_eq_true] at isActive_
      rcases isActive_.1 with on | on
      · exact on.1
      · exact on.1.1
    refine now.openedBy clock none_ stays rfl rfl rfl ?_
    refine Matches.fresh now clock registered none_ pruned transport ?_ ?_ ?_ rfl rfl rfl
    · rw [isActive_, Bool.not_true, Bool.or_false]
      rfl
    · rw [isActive_, if_pos rfl]
      exact Function.update_self ..
    · intro idle
      rw [isActive_] at idle
      cases idle
  · have both : cfg.enableTransport = true ∧ s.requests.contains r.dest = false := by
      simp only [reorigination, Bool.and_eq_true, Bool.not_eq_true'] at again
      exact ⟨again.1.1.1.1, again.2⟩
    have none_ : s.requests.get? r.dest = none := BoundedMap.contains_eq_false.mp both.2
    have idle_ : s.active cfg r = false := idle
    have pruned := (sound_request ok asks).2 both.2 opens
    rw [reoriginateTowardPeerLinks, if_pos again] at stays
    refine now.openedBy clock none_ stays rfl rfl rfl ?_
    refine Matches.fresh now clock registered none_ pruned both.1 ?_ ?_ (fun _ => passive) rfl rfl rfl
    · rw [idle_, Bool.not_false, Bool.or_true]
      exact Function.update_self ..
    · rw [idle_, if_neg Bool.false_ne_true]

end Request

end Leviculum.Transport.Discovery
