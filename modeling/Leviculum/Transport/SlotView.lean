import Mathlib.Data.List.Perm.Subperm
import Leviculum.Transport.RebroadcastOrder

/-! Every run of the whole announce table is, for each destination, a run of its slot. -/

namespace Leviculum.Transport

/-! ### Rows -/

abbrev HeldEntries := List (TruncatedHash × AnnounceEntry)

def HeldEntries.Single (held : HeldEntries) : Prop :=
  ∀ dest entry entry', (dest, entry) ∈ held → (dest, entry') ∈ held → entry = entry'

theorem HeldEntries.Single.lookup_iff {held : HeldEntries} (single : held.Single) {dest : TruncatedHash}
    {entry : AnnounceEntry} : held.lookup dest = some entry ↔ (dest, entry) ∈ held := by
  constructor
  · intro found
    obtain ⟨before, after, rfl, -⟩ := List.lookup_eq_some_iff.mp found
    exact List.mem_append_right _ (List.mem_cons_self ..)
  · intro member
    cases found : held.lookup dest with
    | none =>
      have absent := List.lookup_eq_none_iff.mp found _ member
      simp at absent
    | some other =>
      obtain ⟨before, after, shape, -⟩ := List.lookup_eq_some_iff.mp found
      have there : (dest, other) ∈ held := by
        rw [shape]
        exact List.mem_append_right _ (List.mem_cons_self ..)
      rw [single dest other entry there member]

theorem HeldEntries.Single.subset {held held' : HeldEntries} (single : held.Single) (fewer : ∀ row ∈ held', row ∈ held) :
    held'.Single :=
  fun dest entry entry' first second => single dest entry entry' (fewer _ first) (fewer _ second)

/-- The row of a destination and the entry held behind it. -/
def Timers.rows (s : Timers) (dest : TruncatedHash) : Option AnnounceEntry × Option AnnounceEntry :=
  (s.announces.get? dest, s.heldEntries.lookup dest)

def Slot.rows (slot : Slot) : Option AnnounceEntry × Option AnnounceEntry :=
  (slot.live.map Tagged.entry, slot.held.map Tagged.entry)

namespace Timers

/-- The announce table within its capacity, and one held entry a destination. -/
structure Sound (s : Timers) : Prop where
  fits : s.announces.Fits
  some_ : 0 < s.announces.capacity
  single : HeldEntries.Single s.heldEntries

variable {s : Timers} {key dest : TruncatedHash} {entry : AnnounceEntry}

theorem Sound.of_same {s' : Timers} (sound : s.Sound) (announces : s'.announces = s.announces)
    (held : s'.heldEntries = s.heldEntries) : s'.Sound :=
  ⟨announces ▸ sound.fits, announces ▸ sound.some_, held ▸ sound.single⟩

theorem rows_of_same {s' : Timers} (announces : s'.announces = s.announces) (held : s'.heldEntries = s.heldEntries)
    (dest : TruncatedHash) : s'.rows dest = s.rows dest := by
  unfold rows
  rw [announces, held]

theorem sound_insert (sound : s.Sound) (key : TruncatedHash) (entry : AnnounceEntry) :
    { s with announces := s.announces.insert key entry }.Sound :=
  ⟨sound.fits.insert sound.some_ key entry, sound.some_, sound.single⟩

theorem sound_restoreHeld (sound : s.Sound) (key : TruncatedHash) : (s.restoreHeld key).Sound := by
  unfold restoreHeld
  split
  · exact sound
  · refine ⟨sound.fits.insert sound.some_ .., sound.some_, sound.single.subset ?_⟩
    exact fun row member => (List.mem_filter.mp member).1

theorem lookup_filter_ne (single : HeldEntries.Single s.heldEntries) (key dest : TruncatedHash) :
    (s.heldEntries.filter fun held => held.1 ≠ key).lookup dest =
      if dest = key then none else s.heldEntries.lookup dest := by
  have fewer : HeldEntries.Single (s.heldEntries.filter fun held => held.1 ≠ key) :=
    single.subset (fun row member => (List.mem_filter.mp member).1)
  apply Option.ext
  intro found
  rw [fewer.lookup_iff, List.mem_filter]
  split
  next same => simp [same]
  next apart => simp [apart, single.lookup_iff]

theorem rows_restoreHeld (sound : s.Sound) (room : s.announces.HasRoom key) (dest : TruncatedHash) :
    (s.restoreHeld key).rows dest =
      if dest = key ∧ (s.heldEntries.lookup key).isSome then (s.heldEntries.lookup key, none) else s.rows dest := by
  unfold restoreHeld rows
  cases held : s.heldEntries.lookup key with
  | none => simp
  | some entry =>
    dsimp only
    rw [BoundedMap.get?_insert_of_room room, lookup_filter_ne sound.single]
    split <;> simp_all

theorem sound_erase (sound : s.Sound) (key : TruncatedHash) : { s with announces := s.announces.erase key }.Sound :=
  ⟨sound.fits.keep _, sound.some_, sound.single⟩

theorem sound_removeAnnounce (sound : s.Sound) (key : TruncatedHash) : (s.removeAnnounce key).Sound :=
  sound_restoreHeld (sound_erase sound key) key

theorem rows_removeAnnounce (sound : s.Sound) (found : s.announces.get? key = some entry) (dest : TruncatedHash) :
    (s.removeAnnounce key).rows dest = if dest = key then (s.heldEntries.lookup key, none) else s.rows dest := by
  unfold removeAnnounce
  rw [rows_restoreHeld (sound_erase sound key) (sound.fits.hasRoom_erase found)]
  dsimp only [rows]
  by_cases same : dest = key
  · subst same
    rw [if_pos rfl, BoundedMap.get?_erase_self]
    cases s.heldEntries.lookup dest <;> simp
  · rw [if_neg (fun both => same both.1), if_neg same, BoundedMap.get?_erase_of_ne same]

theorem hasRoom_of_found (found : s.announces.get? key = some entry) : s.announces.HasRoom key :=
  .inl (BoundedMap.contains_of_get? found)

theorem sound_deferAnnounce (sound : s.Sound) (key : TruncatedHash) (at_ : Nat) : (s.deferAnnounce key at_).Sound := by
  unfold deferAnnounce
  split
  · exact sound
  · exact sound_insert sound key _

theorem rows_deferAnnounce (found : s.announces.get? key = some entry) (at_ : Nat) (dest : TruncatedHash) :
    (s.deferAnnounce key at_).rows dest =
      if dest = key then (some { entry with retransmitAtMs := some at_ }, s.heldEntries.lookup key) else s.rows dest := by
  unfold deferAnnounce
  rw [found]
  dsimp only [rows]
  rw [BoundedMap.get?_insert_of_room (hasRoom_of_found found)]
  split
  next same => rw [same]
  next => rfl

theorem sound_reschedule (sound : s.Sound) (cfg : TimerConfig) (nowMs : Nat) (key : TruncatedHash) (raw : Bytes) :
    (s.reschedule cfg nowMs key raw).Sound := by
  refine ⟨?_, sound.some_, sound.single⟩
  have same : (s.announces.modify key fun entry =>
      { entry with
        retransmitAtMs := some (nowMs + pathfinderGMs + cfg.retryWaitMs key raw
          (saturatingAddU8 (((s.announces.get? key).map AnnounceEntry.retries).getD 0) 1)
          (backoffFactor (((s.announces.get? key).map AnnounceEntry.retries).getD 0)))
        retries := entry.retries + 1 }).entries.length = s.announces.entries.length := List.length_map ..
  exact (Nat.le_of_eq same).trans sound.fits

/-- When an entry that fired is due again. -/
def nextAtMs (cfg : TimerConfig) (nowMs : Nat) (key : TruncatedHash) (entry : AnnounceEntry) : Nat :=
  nowMs + pathfinderGMs + cfg.retryWaitMs key entry.rawPacket (saturatingAddU8 entry.retries 1) (backoffFactor entry.retries)

theorem rows_reschedule (found : s.announces.get? key = some entry) (cfg : TimerConfig) (nowMs : Nat)
    (dest : TruncatedHash) :
    (s.reschedule cfg nowMs key entry.rawPacket).rows dest =
      if dest = key then (some { entry with
        retransmitAtMs := some (nextAtMs cfg nowMs key entry)
        retries := entry.retries + 1 }, s.heldEntries.lookup key) else s.rows dest := by
  unfold reschedule rows nextAtMs
  dsimp only
  rw [BoundedMap.get?_modify, found]
  split
  next same =>
    rw [same]
    rfl
  next => rfl

/-- What a fired entry leaves: it is removed past the hop limit, makes place for the held one or waits again. -/
def rowsAfterFire (cfg : TimerConfig) (nextAtMs : Nat) (entry : AnnounceEntry) (held : Option AnnounceEntry) :
    Option AnnounceEntry × Option AnnounceEntry :=
  let again := held.or (some { entry with
    retransmitAtMs := some nextAtMs
    retries := entry.retries + 1 })
  match Packet.unpack entry.rawPacket with
  | .error _ => (again, none)
  | .ok parsed => if (rebuilt cfg entry parsed).hops.toNat > cfg.node.maxHops then (held, none) else (again, none)

theorem emit_same (cfg : TimerConfig) (nowMs : Nat) (entry : AnnounceEntry) (packet : Packet) (s : Timers) :
    (s.emit cfg nowMs entry packet).announces = s.announces ∧ (s.emit cfg nowMs entry packet).heldEntries = s.heldEntries := by
  unfold emit broadcastAnnounceWithCaps
  split
  · exact ⟨rfl, rfl⟩
  · split
    · exact ⟨rfl, rfl⟩
    · split <;> exact ⟨rfl, rfl⟩

theorem sound_again (sound : s.Sound) (cfg : TimerConfig) (nowMs : Nat) (key : TruncatedHash) (entry : AnnounceEntry) :
    (if (s.heldEntries.lookup key).isSome then s.restoreHeld key
      else s.reschedule cfg nowMs key entry.rawPacket).Sound := by
  split
  · exact sound_restoreHeld sound key
  · exact sound_reschedule sound cfg nowMs key _

theorem rows_again (sound : s.Sound) (found : s.announces.get? key = some entry) (cfg : TimerConfig) (nowMs : Nat)
    (dest : TruncatedHash) :
    (if (s.heldEntries.lookup key).isSome then s.restoreHeld key
      else s.reschedule cfg nowMs key entry.rawPacket).rows dest =
      if dest = key then ((s.heldEntries.lookup key).or (some { entry with
        retransmitAtMs := some (nextAtMs cfg nowMs key entry)
        retries := entry.retries + 1 }), none) else s.rows dest := by
  split
  next some =>
    rw [rows_restoreHeld sound (hasRoom_of_found found)]
    obtain ⟨held, here⟩ := Option.isSome_iff_exists.mp some
    simp [here]
  next none =>
    rw [rows_reschedule found, Option.not_isSome_iff_eq_none.mp none]
    rfl

theorem sound_fireAnnounce (sound : s.Sound) (cfg : TimerConfig) (nowMs : Nat) (key : TruncatedHash)
    (entry : AnnounceEntry) : (s.fireAnnounce cfg nowMs (key, entry)).Sound := by
  unfold fireAnnounce
  dsimp only
  split
  · exact sound_again sound cfg nowMs key entry
  next parsed _ =>
    obtain ⟨announces, held⟩ := emit_same cfg nowMs entry (rebuilt cfg entry parsed) s
    have sound' := sound.of_same announces held
    split
    · exact sound_removeAnnounce sound' key
    · exact sound_again sound' cfg nowMs key entry

theorem rows_fireAnnounce (sound : s.Sound) (found : s.announces.get? key = some entry) (cfg : TimerConfig)
    (nowMs : Nat) (dest : TruncatedHash) :
    (s.fireAnnounce cfg nowMs (key, entry)).rows dest =
      if dest = key then rowsAfterFire cfg (nextAtMs cfg nowMs key entry) entry (s.heldEntries.lookup key)
      else s.rows dest := by
  unfold fireAnnounce rowsAfterFire
  dsimp only
  cases Packet.unpack entry.rawPacket with
  | error _ => exact rows_again sound found cfg nowMs dest
  | ok parsed =>
    obtain ⟨announces, held⟩ := emit_same cfg nowMs entry (rebuilt cfg entry parsed) s
    have sound' := sound.of_same announces held
    have found' : (s.emit cfg nowMs entry (rebuilt cfg entry parsed)).announces.get? key = some entry := announces ▸ found
    have same := rows_of_same announces held dest
    dsimp only
    split
    · rw [rows_removeAnnounce sound' found', held, same]
    · rw [rows_again sound' found', held, same]

/-! ### One pass of the scheduler -/

/-- A step on each of some rows, each found as it was listed. -/
structure RowStep (f : Timers → TruncatedHash × AnnounceEntry → Timers) : Prop where
  sound : ∀ {s} (key entry), s.Sound → (f s (key, entry)).Sound
  beside : ∀ {s key entry dest}, s.Sound → s.announces.get? key = some entry → dest ≠ key →
    (f s (key, entry)).rows dest = s.rows dest

theorem RowStep.sound_foldl {f : Timers → TruncatedHash × AnnounceEntry → Timers} (step : RowStep f)
    (listed : List (TruncatedHash × AnnounceEntry)) (sound : s.Sound) : (listed.foldl f s).Sound := by
  induction listed generalizing s with
  | nil => exact sound
  | cons row rest ih => exact ih (step.sound row.1 row.2 sound)

theorem RowStep.foldl {f : Timers → TruncatedHash × AnnounceEntry → Timers} (step : RowStep f)
    {listed : List (TruncatedHash × AnnounceEntry)} (apart : (listed.map Prod.fst).Nodup) (sound : s.Sound)
    (found : ∀ row ∈ listed, s.announces.get? row.1 = some row.2) (dest : TruncatedHash) :
    ((∀ row ∈ listed, row.1 ≠ dest) → (listed.foldl f s).rows dest = s.rows dest) ∧
      ∀ entry, (dest, entry) ∈ listed → ∃ s' : Timers, s'.Sound ∧ s'.rows dest = s.rows dest ∧
        (listed.foldl f s).rows dest = (f s' (dest, entry)).rows dest := by
  induction listed generalizing s with
  | nil => exact ⟨fun _ => rfl, nofun⟩
  | cons row rest ih =>
    obtain ⟨key, listedEntry⟩ := row
    have here := found (key, listedEntry) (List.mem_cons_self ..)
    obtain ⟨fresh, apart⟩ := List.nodup_cons.mp apart
    have others : ∀ row ∈ rest, row.1 ≠ key :=
      fun row member same => fresh (List.mem_map.mpr ⟨row, member, same⟩)
    have still : ∀ row ∈ rest, (f s (key, listedEntry)).announces.get? row.1 = some row.2 := by
      intro row member
      have same := congrArg Prod.fst (step.beside sound here (others row member))
      exact same.trans (found row (List.mem_cons_of_mem _ member))
    obtain ⟨outside, inside⟩ := ih apart (step.sound _ _ sound) still
    refine ⟨fun absent => ?_, fun entry member => ?_⟩
    · have ne : dest ≠ key := (absent (key, listedEntry) (List.mem_cons_self ..)).symm
      exact (outside (fun row member => absent row (List.mem_cons_of_mem _ member))).trans (step.beside sound here ne)
    · rcases List.mem_cons.mp member with first | later
      · obtain ⟨rfl, rfl⟩ := Prod.mk.inj first
        exact ⟨s, sound, rfl, outside others⟩
      · have ne : dest ≠ key := others (dest, entry) later
        obtain ⟨s', before, same, own⟩ := inside entry later
        exact ⟨s', before, same.trans (step.beside sound here ne), own⟩

def Due.slot? : Due → Option Nat
  | .defer at_ => some at_
  | _ => none

def listed (cfg : TimerConfig) (nowMs : Nat) (s : Timers) (p : Due → Bool) : List (TruncatedHash × AnnounceEntry) :=
  s.announces.entries.filter fun row => p (s.dueOf cfg nowMs row.2)

theorem checkAnnounceRebroadcasts_eq (cfg : TimerConfig) (nowMs : Nat) (s : Timers) :
    s.checkAnnounceRebroadcasts cfg nowMs =
      (s.listed cfg nowMs fun due => due = .fire).foldl (fireAnnounce cfg nowMs)
        ((s.listed cfg nowMs fun due => due.slot?.isSome).foldl
          (fun t row => t.deferAnnounce row.1 ((s.dueOf cfg nowMs row.2).slot?.getD 0))
          ((s.listed cfg nowMs fun due => due = .remove).foldl (fun t row => t.removeAnnounce row.1) s)) := by
  unfold checkAnnounceRebroadcasts listed
  simp only [List.foldl_filterMap, List.foldl_filter, List.foldl_map]
  congr 2
  funext t row
  cases s.dueOf cfg nowMs row.2 <;> rfl

section Listed

variable {cfg : TimerConfig} {nowMs : Nat} {p q : Due → Bool}

theorem found_of_listed {row : TruncatedHash × AnnounceEntry} (member : row ∈ s.listed cfg nowMs p) :
    s.announces.get? row.1 = some row.2 ∧ p (s.dueOf cfg nowMs row.2) = true :=
  ⟨BoundedMap.get?_eq_some.mpr (List.mem_filter.mp member).1, (List.mem_filter.mp member).2⟩

theorem mem_listed (found : s.announces.get? dest = some entry) (due : p (s.dueOf cfg nowMs entry) = true) :
    (dest, entry) ∈ s.listed cfg nowMs p := List.mem_filter.mpr ⟨BoundedMap.get?_eq_some.mp found, due⟩

theorem not_listed (other : ∀ entry, s.announces.get? dest = some entry → p (s.dueOf cfg nowMs entry) = false) :
    ∀ row ∈ s.listed cfg nowMs p, row.1 ≠ dest := by
  rintro row member rfl
  obtain ⟨found, due⟩ := found_of_listed member
  rw [other row.2 found] at due
  cases due

theorem listed_apart (cfg : TimerConfig) (nowMs : Nat) (s : Timers) (p : Due → Bool) :
    ((s.listed cfg nowMs p).map Prod.fst).Nodup := s.announces.nodup.sublist (List.filter_sublist.map _)

end Listed

theorem rowStep_remove : RowStep fun t row => t.removeAnnounce row.1 where
  sound key _ sound := sound_removeAnnounce sound key
  beside sound found apart := (rows_removeAnnounce sound found _).trans (if_neg apart)

theorem rowStep_defer (at_ : TruncatedHash × AnnounceEntry → Nat) : RowStep fun t row => t.deferAnnounce row.1 (at_ row) where
  sound key _ sound := sound_deferAnnounce sound key _
  beside _ found apart := (rows_deferAnnounce found _ _).trans (if_neg apart)

theorem rowStep_fire (cfg : TimerConfig) (nowMs : Nat) : RowStep (fireAnnounce cfg nowMs) where
  sound key entry sound := sound_fireAnnounce sound cfg nowMs key entry
  beside sound found apart := (rows_fireAnnounce sound found cfg nowMs _).trans (if_neg apart)

def rowsAfterPass (cfg : TimerConfig) (nowMs nextAtMs : Nat) (s : Timers) :
    Option AnnounceEntry × Option AnnounceEntry → Option AnnounceEntry × Option AnnounceEntry
  | (none, held) => (none, held)
  | (some entry, held) =>
    match s.dueOf cfg nowMs entry with
    | .keep => (some entry, held)
    | .remove => (held, none)
    | .defer at_ => (some { entry with retransmitAtMs := some at_ }, held)
    | .fire => rowsAfterFire cfg nextAtMs entry held

theorem sound_checkAnnounceRebroadcasts (cfg : TimerConfig) (nowMs : Nat) (sound : s.Sound) :
    (s.checkAnnounceRebroadcasts cfg nowMs).Sound := by
  rw [checkAnnounceRebroadcasts_eq]
  refine (rowStep_fire cfg nowMs).sound_foldl _ ((rowStep_defer _).sound_foldl _ ?_)
  exact rowStep_remove.sound_foldl _ sound

theorem checkAnnounceRebroadcasts_rows (cfg : TimerConfig) (nowMs : Nat) (sound : s.Sound) (dest : TruncatedHash) :
    ∃ nextAtMs,
      (s.checkAnnounceRebroadcasts cfg nowMs).rows dest = rowsAfterPass cfg nowMs nextAtMs s (s.rows dest) := by
  rw [checkAnnounceRebroadcasts_eq]
  have soundRemoved := rowStep_remove.sound_foldl (s.listed cfg nowMs fun due => due = .remove) sound
  have soundDeferred := (rowStep_defer fun row => (s.dueOf cfg nowMs row.2).slot?.getD 0).sound_foldl
    (s.listed cfg nowMs fun due => due.slot?.isSome) soundRemoved
  have first := rowStep_remove.foldl (listed_apart cfg nowMs s fun due => due = .remove) sound
    (fun row member => (found_of_listed member).1)
  generalize (s.listed cfg nowMs fun due => due = .remove).foldl (fun t row => t.removeAnnounce row.1) s = removed at first soundRemoved soundDeferred
  -- what is deferred was not removed
  have kept : ∀ row ∈ s.listed cfg nowMs (fun due => due.slot?.isSome), removed.announces.get? row.1 = some row.2 := by
    intro row member
    obtain ⟨found, due⟩ := found_of_listed member
    have same := (first row.1).1 (not_listed (fun entry here => ?_))
    · exact (congrArg Prod.fst same).trans found
    · cases here.symm.trans found
      revert due
      cases s.dueOf cfg nowMs row.2 <;> simp [Due.slot?]
  have second := (rowStep_defer fun row => (s.dueOf cfg nowMs row.2).slot?.getD 0).foldl
    (listed_apart cfg nowMs s fun due => due.slot?.isSome) soundRemoved kept
  generalize (s.listed cfg nowMs fun due => due.slot?.isSome).foldl
    (fun t row => t.deferAnnounce row.1 ((s.dueOf cfg nowMs row.2).slot?.getD 0)) removed = deferred at second soundDeferred
  -- what fires was neither removed nor deferred
  have left : ∀ row ∈ s.listed cfg nowMs (fun due => due = .fire), deferred.announces.get? row.1 = some row.2 := by
    intro row member
    obtain ⟨found, due⟩ := found_of_listed member
    have fires : s.dueOf cfg nowMs row.2 = .fire := of_decide_eq_true due
    have before := (first row.1).1 (not_listed (fun entry here => ?_))
    · have after := (second row.1).1 (not_listed (fun entry here => ?_))
      · exact (congrArg Prod.fst (after.trans before)).trans found
      · cases here.symm.trans found
        rw [fires]
        rfl
    · cases here.symm.trans found
      rw [fires]
      rfl
  have third := (rowStep_fire cfg nowMs).foldl (listed_apart cfg nowMs s fun due => due = .fire) soundDeferred left
  obtain ⟨unremoved, removes⟩ := first dest
  obtain ⟨undeferred, defers⟩ := second dest
  obtain ⟨unfired, fires⟩ := third dest
  cases found : s.announces.get? dest with
  | none =>
    have absent : ∀ p : Due → Bool, ∀ row ∈ s.listed cfg nowMs p, row.1 ≠ dest :=
      fun p => not_listed (fun entry here => nomatch found.symm.trans here)
    refine ⟨0, ?_⟩
    rw [unfired (absent _), undeferred (absent _), unremoved (absent _)]
    unfold rows
    rw [found]
    rfl
  | some entry =>
    have view : s.rows dest = (some entry, s.heldEntries.lookup dest) := by
      unfold rows
      rw [found]
    have other : ∀ {p : Due → Bool}, p (s.dueOf cfg nowMs entry) = false → ∀ row ∈ s.listed cfg nowMs p, row.1 ≠ dest := by
      intro p not
      refine not_listed (fun entry' here => ?_)
      cases here.symm.trans found
      exact not
    have found_in : ∀ {s' : Timers}, s'.rows dest = s.rows dest →
        s'.announces.get? dest = some entry ∧ s'.heldEntries.lookup dest = s.heldEntries.lookup dest :=
      fun same => Prod.mk.inj (same.trans view)
    rw [view]
    dsimp only [rowsAfterPass]
    cases due : s.dueOf cfg nowMs entry with
    | keep =>
      refine ⟨0, ?_⟩
      rw [unfired (other (by rw [due]; rfl)), undeferred (other (by rw [due]; rfl)),
        unremoved (other (by rw [due]; rfl)), view]
    | remove =>
      refine ⟨0, ?_⟩
      obtain ⟨s', before, same, own⟩ := removes entry (mem_listed found (by rw [due]; rfl))
      obtain ⟨there, held⟩ := found_in same
      rw [unfired (other (by rw [due]; rfl)), undeferred (other (by rw [due]; rfl)), own, rows_removeAnnounce before there,
        if_pos rfl, held]
    | defer at_ =>
      refine ⟨0, ?_⟩
      obtain ⟨s', before, same, own⟩ := defers entry (mem_listed found (by rw [due]; rfl))
      obtain ⟨there, held⟩ := found_in (same.trans (unremoved (other (by rw [due]; rfl))))
      rw [unfired (other (by rw [due]; rfl)), own, rows_deferAnnounce there, if_pos rfl, held, due]
      rfl
    | fire =>
      refine ⟨nextAtMs cfg nowMs dest entry, ?_⟩
      obtain ⟨s', before, same, own⟩ := fires entry (mem_listed found (by rw [due]; rfl))
      obtain ⟨there, held⟩ := found_in ((same.trans (undeferred (other (by rw [due]; rfl)))).trans
        (unremoved (other (by rw [due]; rfl))))
      rw [own, rows_fireAnnounce before there, if_pos rfl, held]

end Timers

theorem Route.RowEffect.absent {cfg : AnnounceConfig} {r : Route} {a : Announce} {row : Option AnnounceEntry}
    (effect : RowEffect cfg r a row) (empty : row = none) : r.announce = none := by
  cases effect with
  | kept _ => exact empty
  | counted _ entry had => cases empty
  | taken _ entry => cases empty

/-! ### The same on a slot -/

/-- A pending entry is held while a response takes its row. -/
def rowsAfterHold : Option AnnounceEntry × Option AnnounceEntry → Option AnnounceEntry × Option AnnounceEntry
  | (none, held) => (none, held)
  | (some entry, held) =>
    if held.any (fun held => !held.blockRebroadcasts && entry.blockRebroadcasts) then (some entry, held)
    else (some entry, some entry)

namespace Slot

variable (slot : Slot)

theorem rows_restoreHeld : slot.restoreHeld.rows = (slot.rows.2.or slot.rows.1, none) := by
  unfold restoreHeld rows
  cases held : slot.held with
  | none => simp [held]
  | some h => rfl

theorem rows_removeAnnounce : slot.removeAnnounce.rows = (slot.rows.2, none) := by
  unfold removeAnnounce
  rw [rows_restoreHeld]
  cases held : slot.held <;> simp [rows, held]

theorem rows_afterFire {live : Tagged} (nextAtMs : Nat) :
    (slot.afterFire nextAtMs live).rows = (slot.rows.2.or (some { live.entry with
      retransmitAtMs := some nextAtMs
      retries := live.entry.retries + 1 }), none) := by
  unfold afterFire
  cases held : slot.held with
  | none => simp [rows, held]
  | some h =>
    rw [rows_restoreHeld]
    simp [rows, held]

theorem rows_fireAnnounce (cfg : TimerConfig) (live : Tagged) (nextAtMs : Nat) :
    (slot.fireAnnounce cfg nextAtMs live).rows = Timers.rowsAfterFire cfg nextAtMs live.entry slot.rows.2 := by
  unfold fireAnnounce Timers.rowsAfterFire
  cases Packet.unpack live.entry.rawPacket with
  | error _ => exact slot.rows_afterFire nextAtMs
  | ok parsed =>
    dsimp only
    split
    · exact rows_removeAnnounce { slot with emitted := slot.emitted ++ [live] }
    · exact rows_afterFire { slot with emitted := slot.emitted ++ [live] } nextAtMs

theorem rows_checkAnnounceRebroadcasts (cfg : TimerConfig) (s : Timers) (nowMs nextAtMs : Nat) :
    (slot.checkAnnounceRebroadcasts cfg s nowMs nextAtMs).rows = Timers.rowsAfterPass cfg nowMs nextAtMs s slot.rows := by
  unfold checkAnnounceRebroadcasts
  cases was : slot.live with
  | none => simp [rows, was, Timers.rowsAfterPass]
  | some live =>
    have view : slot.rows = (some live.entry, slot.rows.2) := by simp [rows, was]
    rw [view]
    dsimp only [Timers.rowsAfterPass]
    cases s.dueOf cfg nowMs live.entry with
    | keep => exact view
    | remove => exact slot.rows_removeAnnounce
    | defer at_ => rfl
    | fire => exact slot.rows_fireAnnounce cfg live nextAtMs

theorem rows_holdDisplacedAnnounce : slot.holdDisplacedAnnounce.rows = rowsAfterHold slot.rows := by
  unfold holdDisplacedAnnounce
  cases was : slot.live with
  | none => simp [rows, was, rowsAfterHold]
  | some live =>
    have view : slot.rows = (some live.entry, slot.held.map Tagged.entry) := by simp [rows, was]
    rw [view]
    dsimp only [rowsAfterHold]
    rw [Option.any_map]
    split
    · exact view
    · rfl

theorem rows_setAnnounce (origin : Origin) (entry : AnnounceEntry) :
    (slot.setAnnounce origin entry).rows = (some entry, slot.rows.2) := rfl

theorem rows_handleAnnounce (cfg : AnnounceConfig) (r : Route) (a : Announce) :
    (slot.handleAnnounce cfg r a).rows = (({ r with announce := slot.rows.1 }.handleAnnounce cfg a).2.announce, slot.rows.2) := by
  have effect := Route.handleAnnounce_row cfg { r with announce := slot.rows.1 } a
  unfold handleAnnounce
  change (if { r with announce := slot.rows.1 }.takes cfg a then _ else _ : Slot).rows = _
  change Route.RowEffect cfg _ a ({ r with announce := slot.live.map Tagged.entry }.handleAnnounce cfg a).2.announce at effect
  change _ = (({ r with announce := slot.live.map Tagged.entry }.handleAnnounce cfg a).2.announce, _)
  generalize ({ r with announce := slot.live.map Tagged.entry }.handleAnnounce cfg a).2.announce = row at effect
  cases effect with
  | kept not =>
    rw [if_neg (by simp [not])]
    cases was : slot.live <;> simp [rows, was]
  | counted not entry had =>
    rw [if_neg (by simp [not])]
    obtain ⟨live, was, -⟩ := Option.map_eq_some_iff.mp had
    simp [rows, was]
  | taken takes entry =>
    rw [if_pos takes]
    rfl

theorem rows_removeTargetedAnnounces (iface : Nat) :
    (slot.removeTargetedAnnounces iface).rows =
      if slot.rows.1.any (fun entry => entry.targetInterface = some iface) then
        (slot.rows.2.filter fun held => held.targetInterface ≠ some iface, none)
      else (slot.rows.1, slot.rows.2.filter fun held => held.targetInterface ≠ some iface) := by
  have culled : { slot with held := slot.held.filter fun held => held.entry.targetInterface ≠ some iface }.rows =
      (slot.rows.1, slot.rows.2.filter fun held => held.targetInterface ≠ some iface) := by
    unfold rows
    rw [Option.filter_map]
    rfl
  have targeted : slot.rows.1.any (fun entry => entry.targetInterface = some iface) =
      slot.live.any (fun live => live.entry.targetInterface = some iface) := Option.any_map
  unfold removeTargetedAnnounces
  rw [targeted]
  dsimp only
  split
  · rw [rows_removeAnnounce, culled]
  · exact culled

end Slot

/-! ### Steps of the whole table -/

namespace Timers

/-- What becomes of the rows of `dest` is something that can happen to its slot. -/
def Follows (cfg : TimerConfig) (dest : TruncatedHash) (s s' : Timers) : Prop :=
  ∀ slot : Slot, slot.rows = s.rows dest → ∃ events, (slot.run cfg events).rows = s'.rows dest

section Follows

variable {cfg : TimerConfig} {s s' s'' : Timers} {key dest : TruncatedHash} {entry : AnnounceEntry}

theorem Follows.ofSame (same : s'.rows dest = s.rows dest) : Follows cfg dest s s' :=
  fun _ view => ⟨[], view.trans same.symm⟩

theorem Follows.trans (first : Follows cfg dest s s') (second : Follows cfg dest s' s'') : Follows cfg dest s s'' := by
  intro slot view
  obtain ⟨early, middle⟩ := first slot view
  obtain ⟨late, last⟩ := second _ middle
  exact ⟨early ++ late, by rw [Slot.run, List.foldl_append]; exact last⟩

theorem Follows.ofEvent (event : Slot.Event) (does : ∀ slot : Slot, slot.rows = s.rows dest →
    (slot.step cfg event).rows = s'.rows dest) : Follows cfg dest s s' :=
  fun slot view => ⟨[event], does slot view⟩

theorem Follows.ofLoss (live : (s'.rows dest).1 = (s.rows dest).1 ∨ (s'.rows dest).1 = none)
    (held : (s'.rows dest).2 = (s.rows dest).2 ∨ (s'.rows dest).2 = none) : Follows cfg dest s s' := by
  have first : Follows cfg dest s { s with announces := s'.announces } := by
    rcases live with same | lost
    · exact .ofSame (Prod.ext same rfl)
    · refine .ofEvent .evicted (fun slot view => ?_)
      have held : slot.held.map Tagged.entry = s.heldEntries.lookup dest := congrArg Prod.snd view
      exact Prod.ext lost.symm held
  refine first.trans ?_
  rcases held with same | lost
  · exact .ofSame (Prod.ext rfl same)
  · refine .ofEvent .heldLost (fun slot view => ?_)
    have live : slot.live.map Tagged.entry = s'.announces.get? dest := congrArg Prod.fst view
    exact Prod.ext live lost.symm

theorem Follows.beside (apart : dest ≠ key) (announces : s'.announces = s.announces.insert key entry)
    (held : s'.heldEntries.lookup dest = s.heldEntries.lookup dest) : Follows cfg dest s s' := by
  refine .ofLoss ?_ (.inl held)
  unfold rows
  dsimp only
  rw [announces]
  cases found : (s.announces.insert key entry).get? dest with
  | none => exact .inr rfl
  | some kept => exact .inl (BoundedMap.get?_insertPreferring_of_ne apart found).symm

theorem rows_insert (s : Timers) (key : TruncatedHash) (entry : AnnounceEntry) :
    { s with announces := s.announces.insert key entry }.rows key = (some entry, (s.rows key).2) :=
  Prod.ext (BoundedMap.get?_insertPreferring_self ..) rfl

theorem rows_holdDisplacedAnnounce (single : HeldEntries.Single s.heldEntries) (key dest : TruncatedHash) :
    (s.holdDisplacedAnnounce key).rows dest = if dest = key then rowsAfterHold (s.rows key) else s.rows dest := by
  unfold holdDisplacedAnnounce
  cases found : s.announces.get? key with
  | none =>
    have view : rowsAfterHold (s.rows key) = s.rows key := by simp [rows, found, rowsAfterHold]
    rw [view]
    by_cases same : dest = key
    · rw [if_pos same, same]
    · rw [if_neg same]
  | some existing =>
    have view : s.rows key = (some existing, s.heldEntries.lookup key) := by simp [rows, found]
    rw [view]
    dsimp only [rowsAfterHold]
    by_cases blocked : (s.heldEntries.lookup key).any
        (fun held => !held.blockRebroadcasts && existing.blockRebroadcasts) = true
    · rw [if_pos blocked, if_pos blocked]
      by_cases same : dest = key
      · rw [if_pos same, same, view]
      · rw [if_neg same]
    · rw [if_neg blocked, if_neg blocked]
      dsimp only [rows]
      rw [List.lookup_cons, lookup_filter_ne single]
      by_cases same : dest = key
      · subst same
        simp [found]
      · have other : (dest == key) = false := beq_false_of_ne same
        rw [other, if_neg same, if_neg same]

theorem sound_holdDisplacedAnnounce (sound : s.Sound) (key : TruncatedHash) : (s.holdDisplacedAnnounce key).Sound := by
  unfold holdDisplacedAnnounce
  split
  · exact sound
  · split
    · exact sound
    · refine ⟨sound.fits, sound.some_, ?_⟩
      intro dest entry entry' first second
      simp only [List.mem_cons, Prod.mk.injEq, List.mem_filter, decide_eq_true_eq] at first second
      rcases first with ⟨same, rfl⟩ | ⟨old, apart⟩ <;> rcases second with ⟨same', rfl⟩ | ⟨old', apart'⟩
      · rfl
      · exact absurd same apart'
      · exact absurd same' apart
      · exact sound.single dest entry entry' old old'

theorem follows_ownAnnounce (cfg : TimerConfig) (nowMs : Nat) (key dest : TruncatedHash) (raw : Bytes) (s : Timers) :
    Follows cfg dest s (s.scheduleOwnAnnounceRetry cfg nowMs key raw) := by
  by_cases same : dest = key
  · subst same
    refine .ofEvent (.ownAnnounce nowMs (cfg.retryWaitMs dest raw 0 1) raw) (fun slot view => ?_)
    refine Eq.trans ?_ (rows_insert s dest _).symm
    rw [← view]
    rfl
  · exact .beside same rfl rfl

theorem follows_response (single : HeldEntries.Single s.heldEntries) (event : Slot.Event) (origin : Origin)
    (shape : ∀ slot : Slot, slot.step cfg event = slot.holdDisplacedAnnounce.setAnnounce origin entry)
    (key dest : TruncatedHash) :
    Follows cfg dest s { s.holdDisplacedAnnounce key with
      announces := (s.holdDisplacedAnnounce key).announces.insert key entry } := by
  have holds := rows_holdDisplacedAnnounce single key dest
  by_cases same : dest = key
  · subst same
    refine .ofEvent event (fun slot view => ?_)
    rw [shape, Slot.rows_setAnnounce, Slot.rows_holdDisplacedAnnounce, rows_insert, holds, if_pos rfl, view]
  · rw [if_neg same] at holds
    exact (Follows.ofSame holds).trans (.beside same rfl rfl)

theorem setRoute_announces (s : Timers) (key : TruncatedHash) (r : Route) :
    (s.setRoute key r).heldEntries = s.heldEntries ∧
      ((s.setRoute key r).announces = s.announces ∧ (r.announce = s.announces.get? key ∨ r.announce = none) ∨
        ∃ entry, r.announce = some entry ∧ (s.setRoute key r).announces = s.announces.insert key entry) := by
  refine ⟨rfl, ?_⟩
  unfold setRoute
  cases row : r.announce with
  | none => exact .inl ⟨rfl, .inr rfl⟩
  | some entry =>
    dsimp only
    split
    next same => exact .inl ⟨rfl, .inl same.symm⟩
    next => exact .inr ⟨entry, rfl, rfl⟩

theorem follows_setRoute (a : Announce) (key dest : TruncatedHash) (s : Timers) :
    Follows cfg dest s (s.setRoute key ((s.route key).handleAnnounce cfg.announce a).2) := by
  have effect := Route.handleAnnounce_row cfg.announce (s.route key) a
  obtain ⟨held, rows⟩ := setRoute_announces s key ((s.route key).handleAnnounce cfg.announce a).2
  by_cases same : dest = key
  · subst same
    refine .ofEvent (.announce (s.route dest) a) (fun slot view => ?_)
    have live : slot.rows.1 = s.announces.get? dest := congrArg Prod.fst view
    have heldSame : slot.rows.2 = s.heldEntries.lookup dest := congrArg Prod.snd view
    refine (slot.rows_handleAnnounce cfg.announce (s.route dest) a).trans ?_
    rw [live]
    refine Prod.ext ?_ heldSame
    show ((s.route dest).handleAnnounce cfg.announce a).2.announce = _
    rcases rows with ⟨announces, row | empty⟩ | ⟨entry, row, announces⟩
    · rw [row]
      exact (congrArg (BoundedMap.get? · dest) announces).symm
    · rw [empty]
      have known : s.announces.get? dest = none := effect.absent empty
      exact known.symm.trans (congrArg (BoundedMap.get? · dest) announces).symm
    · rw [row]
      refine Eq.trans ?_ (congrArg (BoundedMap.get? · dest) announces).symm
      exact (BoundedMap.get?_insertPreferring_self ..).symm
  · rcases rows with ⟨announces, -⟩ | ⟨entry, -, announces⟩
    · exact .ofSame (rows_of_same announces held dest)
    · exact .beside same announces (by rw [held])

end Follows

/-! ### Runs -/

/-- A table in order stays in order, and each destination sees something that can happen to its slot. -/
structure Tracks (cfg : TimerConfig) (s s' : Timers) : Prop where
  sound : s.Sound → s'.Sound
  follows : s.Sound → ∀ dest, Follows cfg dest s s'

variable {cfg : TimerConfig} {s s' s'' : Timers}

theorem Tracks.ofSame (announces : s'.announces = s.announces) (held : s'.heldEntries = s.heldEntries) :
    Tracks cfg s s' where
  sound sound := sound.of_same announces held
  follows _ dest := .ofSame (rows_of_same announces held dest)

theorem Tracks.trans (first : Tracks cfg s s') (second : Tracks cfg s' s'') : Tracks cfg s s'' where
  sound sound := second.sound (first.sound sound)
  follows sound dest := (first.follows sound dest).trans (second.follows (first.sound sound) dest)

theorem Tracks.after (later : Tracks cfg s' s'') (announces : s'.announces = s.announces)
    (held : s'.heldEntries = s.heldEntries) : Tracks cfg s s'' :=
  Tracks.trans (.ofSame announces held) later

theorem Tracks.foldl {α : Type} {f : Timers → α → Timers} (one : ∀ s a, Tracks cfg s (f s a)) (all : List α) (s : Timers) :
    Tracks cfg s (all.foldl f s) := by
  induction all generalizing s with
  | nil => exact .ofSame rfl rfl
  | cons a rest ih => exact (one s a).trans (ih _)

theorem sound_setRoute (sound : s.Sound) (key : TruncatedHash) (r : Route) : (s.setRoute key r).Sound := by
  obtain ⟨held, ⟨announces, -⟩ | ⟨entry, -, announces⟩⟩ := setRoute_announces s key r
  · exact sound.of_same announces held
  · exact (sound_insert sound key entry).of_same announces held

theorem tracks_handleAnnounce (cfg : TimerConfig) (nowMs iface : Nat) (peer : Option TruncatedHash) (raw : Bytes)
    (packet : Packet) (s : Timers) : Tracks cfg s (s.handleAnnounce cfg nowMs iface peer raw packet) := by
  unfold handleAnnounce
  split
  · exact .ofSame rfl rfl
  next a _ =>
    have routed : Tracks cfg s (s.setRoute packet.destinationHash
        ((s.route packet.destinationHash).handleAnnounce cfg.announce a).2) :=
      ⟨fun sound => sound_setRoute sound _ _, fun _ dest => follows_setRoute a _ dest s⟩
    dsimp only
    split
    · exact routed.trans (.ofSame rfl rfl)
    · exact routed

theorem tracks_releaseHeld (cfg : TimerConfig) (nowMs : Nat) (s : Timers) (iface : Nat) :
    Tracks cfg s (s.releaseHeld cfg nowMs iface) := by
  unfold releaseHeld
  split
  · exact .ofSame rfl rfl
  · dsimp only
    split
    · exact .ofSame rfl rfl
    · exact (tracks_handleAnnounce ..).after rfl rfl

theorem tracks_checkAnnounceRebroadcasts (cfg : TimerConfig) (nowMs : Nat) (s : Timers) :
    Tracks cfg s (s.checkAnnounceRebroadcasts cfg nowMs) where
  sound := sound_checkAnnounceRebroadcasts cfg nowMs
  follows sound dest := by
    obtain ⟨nextAtMs, after⟩ := checkAnnounceRebroadcasts_rows cfg nowMs sound dest
    refine .ofEvent (.pass s nowMs nextAtMs) (fun slot view => ?_)
    rw [after, ← view]
    exact slot.rows_checkAnnounceRebroadcasts cfg s nowMs nextAtMs

theorem requestPath_same (nowMs : Nat) (dest : TruncatedHash) (s : Timers) :
    (s.requestPath nowMs dest).announces = s.announces ∧ (s.requestPath nowMs dest).heldEntries = s.heldEntries := by
  unfold requestPath
  dsimp only
  split <;> split <;> exact ⟨rfl, rfl⟩

theorem tracks_rediscover (cfg : TimerConfig) (nowMs : Nat) (s : Timers) (entry : LinkEntry) :
    Tracks cfg s (s.rediscover cfg nowMs entry) := by
  unfold rediscover
  dsimp only
  split
  · exact .ofSame rfl rfl
  · split <;> split <;> try split
    all_goals first
      | exact .ofSame rfl rfl
      | exact .ofSame (requestPath_same ..).1 (requestPath_same ..).2

theorem tracks_poll (cfg : TimerConfig) (calm : Nat → Bool) (nowMs : Nat) (s : Timers) :
    Tracks cfg s (s.poll cfg calm nowMs) := by
  have passed := (tracks_checkAnnounceRebroadcasts cfg nowMs ((s.expirePaths nowMs).checkReceiptTimeouts nowMs)).after
    (s := s) rfl rfl
  have links : ∀ s : Timers, Tracks cfg s (s.cleanLinkTable cfg nowMs) :=
    fun s => (Tracks.foldl (tracks_rediscover cfg nowMs) _ _).after rfl rfl
  have released : ∀ s : Timers, Tracks cfg s ((s.cleanPathStates cfg nowMs).processHeldAnnounces cfg calm nowMs) :=
    fun s => (Tracks.foldl (tracks_releaseHeld cfg nowMs) _ _).after rfl rfl
  exact passed.trans (((links _).trans (released _)).after rfl rfl)

theorem tracks_response (event : Slot.Event) (origin : Origin) {entry : AnnounceEntry}
    (shape : ∀ slot : Slot, slot.step cfg event = slot.holdDisplacedAnnounce.setAnnounce origin entry)
    (key : TruncatedHash) :
    Tracks cfg s { s.holdDisplacedAnnounce key with
      announces := (s.holdDisplacedAnnounce key).announces.insert key entry } where
  sound sound := sound_insert (sound_holdDisplacedAnnounce sound key) key entry
  follows sound dest := follows_response sound.single event origin shape key dest

theorem tracks_answerPathRequest (cfg : TimerConfig) (nowMs iface : Nat) (dest : TruncatedHash) (s : Timers) :
    Tracks cfg s (s.answerPathRequest cfg nowMs iface dest) := by
  unfold answerPathRequest
  split
  next path cached _ _ =>
    dsimp only
    split
    · exact .ofSame rfl rfl
    · split
      · exact .ofSame rfl rfl
      next packet parsed =>
        refine tracks_response (.pathRequest nowMs (if (s.interfaceModes iface).getD .full = .roaming then
          pathRequestGraceMs + pathRequestRgMs else pathRequestGraceMs) path.hops iface cached) .response ?_ dest
        intro slot
        show slot.answerPathRequest .. = _
        unfold Slot.answerPathRequest
        rw [parsed]
  next => exact .ofSame rfl rfl

theorem lookup_filter (single : HeldEntries.Single s.heldEntries) (p : AnnounceEntry → Bool) (dest : TruncatedHash) :
    (s.heldEntries.filter fun held => p held.2).lookup dest = (s.heldEntries.lookup dest).filter p := by
  have fewer : HeldEntries.Single (s.heldEntries.filter fun held => p held.2) :=
    single.subset (fun row member => (List.mem_filter.mp member).1)
  apply Option.ext
  intro found
  rw [fewer.lookup_iff, List.mem_filter, Option.filter_eq_some_iff, single.lookup_iff]

theorem tracks_removeTargetedAnnounces (iface : Nat) (s : Timers) :
    Tracks cfg s (s.removeTargetedAnnounces iface) := by
  let culled := { s with heldEntries := s.heldEntries.filter fun held => held.2.targetInterface ≠ some iface }
  let targeted := s.announces.entries.filter fun row => row.2.targetInterface = some iface
  have shape : s.removeTargetedAnnounces iface = targeted.foldl (fun t row => t.removeAnnounce row.1) culled :=
    List.foldl_map
  have soundCulled : s.Sound → culled.Sound := fun sound =>
    ⟨sound.fits, sound.some_, sound.single.subset (fun row member => (List.mem_filter.mp member).1)⟩
  rw [shape]
  refine ⟨fun sound => rowStep_remove.sound_foldl targeted (soundCulled sound), fun sound dest => ?_⟩
  have found : ∀ row ∈ targeted, culled.announces.get? row.1 = some row.2 :=
    fun row member => BoundedMap.get?_eq_some.mpr (List.mem_filter.mp member).1
  obtain ⟨outside, inside⟩ := rowStep_remove.foldl (s.announces.nodup.sublist (List.filter_sublist.map _))
    (soundCulled sound) found dest
  have held : culled.heldEntries.lookup dest =
      (s.rows dest).2.filter fun held => held.targetInterface ≠ some iface :=
    lookup_filter sound.single (fun held => held.targetInterface ≠ some iface) dest
  refine .ofEvent (.interfaceDown iface) (fun slot view => ?_)
  refine (slot.rows_removeTargetedAnnounces iface).trans ?_
  rw [view]
  have missed : (s.rows dest).1.any (fun entry => entry.targetInterface = some iface) = false →
      ∀ row ∈ targeted, row.1 ≠ dest := by
    rintro not row member rfl
    have here : (s.rows row.1).1 = some row.2 := found row member
    rw [here, Option.any_some, (List.mem_filter.mp member).2] at not
    cases not
  cases hit : (s.rows dest).1.any (fun entry => entry.targetInterface = some iface) with
  | true =>
    cases here : (s.rows dest).1 with
    | none =>
      rw [here] at hit
      cases hit
    | some entry =>
      rw [here, Option.any_some] at hit
      obtain ⟨t, sound', same, own⟩ := inside entry (List.mem_filter.mpr ⟨BoundedMap.get?_eq_some.mp here, hit⟩)
      obtain ⟨live, heldSame⟩ := Prod.mk.inj same
      rw [own, rows_removeAnnounce sound' (live.trans here), if_pos rfl, if_pos rfl, heldSame, held]
  | false =>
    rw [outside (missed hit), if_neg Bool.false_ne_true]
    exact Prod.ext rfl held.symm

theorem tracks_step (next : Step cfg s s') (room : s'.announces.capacity = s.announces.capacity) : Tracks cfg s s' := by
  cases next with
  | poll calm nowMs => exact tracks_poll cfg calm nowMs s
  | retry nowMs =>
    unfold retryPendingDiscoveries
    split
    · exact .ofSame rfl rfl
    · split <;> exact .ofSame rfl rfl
  | announce nowMs iface peer raw packet _ hops => exact tracks_handleAnnounce ..
  | ownAnnounce nowMs packet raw _ =>
    exact ⟨fun sound => sound_insert sound _ _, fun _ dest => follows_ownAnnounce cfg nowMs _ dest raw s⟩
  | pathRequest nowMs iface dest => exact tracks_answerPathRequest cfg nowMs iface dest s
  | ownPathRequest nowMs iface packet raw _ =>
    exact (tracks_response (.ownPathRequest nowMs iface raw) .ownResponse (fun _ => rfl) _).after rfl rfl
  | interfaceGone iface => exact tracks_removeTargetedAnnounces iface s
  | elsewhere _ announces held =>
    have fewer : s.Sound → HeldEntries.Single s'.heldEntries := fun sound => sound.single.subset held
    have shorter : s'.announces.entries.length ≤ s.announces.entries.length :=
      (List.subperm_of_subset (List.Nodup.of_map _ s'.announces.nodup) announces).length_le
    refine ⟨fun sound => ⟨?_, room ▸ sound.some_, fewer sound⟩, fun sound dest => .ofLoss ?_ ?_⟩
    · exact (shorter.trans sound.fits).trans (Nat.le_of_eq room.symm)
    · cases here : s'.announces.get? dest with
      | none => exact .inr here
      | some entry =>
        have before := BoundedMap.get?_eq_some.mpr (announces _ (BoundedMap.get?_eq_some.mp here))
        exact .inl (here.trans before.symm)
    · cases here : s'.heldEntries.lookup dest with
      | none => exact .inr here
      | some entry =>
        have before := sound.single.lookup_iff.mpr (held _ ((fewer sound).lookup_iff.mp here))
        exact .inl (here.trans before.symm)

theorem rows_of_run {start : Timers} (announces : start.announces.entries = []) (held : start.heldEntries = [])
    (some_ : 0 < start.announces.capacity)
    (run : Relation.ReflTransGen (fun s s' => Step cfg s s' ∧ s'.announces.capacity = s.announces.capacity) start s)
    (dest : TruncatedHash) : ∃ events, (Slot.run cfg {} events).rows = s.rows dest := by
  have sound : start.Sound := ⟨by rw [BoundedMap.Fits, announces]; exact Nat.zero_le _, some_, by rw [held]; nofun⟩
  have tracks : Tracks cfg start s := by
    induction run with
    | refl => exact .ofSame rfl rfl
    | tail _ next ih => exact ih.trans (tracks_step next.1 next.2)
  refine tracks.follows sound dest {} ?_
  unfold rows Slot.rows
  rw [held, BoundedMap.get?, announces]
  rfl

end Timers

end Leviculum.Transport
