import Leviculum.Transport.Announce

/-! How many announces of one destination the rate limit lets through in a stretch of time. Times are
milliseconds of a monotonic clock, which never nears the end of its 64 bits. -/

namespace Leviculum.Transport

/-- Announces of one destination in turn, each with whether it was blocked. Between two of them the route
may change in any way that keeps its rate entry. -/
inductive RateKept (cfg : AnnounceConfig) :
    Option AnnounceRateEntry → List (Announce × Bool) → Option AnnounceRateEntry → Prop where
  | nil (rate : Option AnnounceRateEntry) : RateKept cfg rate [] rate
  | cons {r : Route} {a : Announce} {blocked : Bool} {rate last : Option AnnounceRateEntry}
      {rest : List (Announce × Bool)} (same : r.rate = rate) (checked : (r.checkAnnounceRate cfg a).1 = blocked)
      (later : RateKept cfg (r.checkAnnounceRate cfg a).2.rate rest last) :
      RateKept cfg rate ((a, blocked) :: rest) last

/-- The announces between two times that were let through. -/
def passes (start stop : Nat) (trace : List (Announce × Bool)) : Nat :=
  trace.countP (fun (a, blocked) => !blocked && decide (start ≤ a.nowMs ∧ a.nowMs ≤ stop))

def Limited (cfg : AnnounceConfig) (target grace penaltyMs : Nat) (trace : List (Announce × Bool)) : Prop :=
  ∀ heard ∈ trace, cfg.effectiveAnnounceRate heard.1.interfaceIndex = some (target, grace, penaltyMs)

/-- The times never go back. -/
def Ordered (trace : List (Announce × Bool)) : Prop := trace.Pairwise (fun early late => early.1.nowMs ≤ late.1.nowMs)

section

variable {cfg : AnnounceConfig} {target grace penaltyMs start stop : Nat}

/-- The violations once the gap before this announce has been judged. -/
def judged (target : Nat) (entry : AnnounceRateEntry) (nowMs : Nat) : Nat :=
  if nowMs - entry.lastMs < target then saturatingAddU8 entry.rateViolations 1 else entry.rateViolations - 1

theorem checkAnnounceRate_cases {r : Route} {a : Announce}
    (limited : cfg.effectiveAnnounceRate a.interfaceIndex = some (target, grace, penaltyMs)) :
    (r.rate = none ∧ (r.checkAnnounceRate cfg a).1 = false ∧
        (r.checkAnnounceRate cfg a).2.rate = some ⟨a.nowMs, 0, 0⟩) ∨
      ∃ entry, r.rate = some entry ∧
        ((a.nowMs ≤ entry.blockedUntilMs ∧ (r.checkAnnounceRate cfg a).1 = true ∧
            (r.checkAnnounceRate cfg a).2.rate = some entry) ∨
          (entry.blockedUntilMs < a.nowMs ∧ grace < judged target entry a.nowMs ∧
            (r.checkAnnounceRate cfg a).1 = true ∧
            (r.checkAnnounceRate cfg a).2.rate =
              some ⟨entry.lastMs, judged target entry a.nowMs, entry.lastMs + target + penaltyMs⟩) ∨
          (entry.blockedUntilMs < a.nowMs ∧ judged target entry a.nowMs ≤ grace ∧
            (r.checkAnnounceRate cfg a).1 = false ∧
            (r.checkAnnounceRate cfg a).2.rate =
              some ⟨a.nowMs, judged target entry a.nowMs, entry.blockedUntilMs⟩)) := by
  unfold Route.checkAnnounceRate
  rw [limited]
  dsimp only
  split
  next unseen => exact .inl ⟨unseen, rfl, rfl⟩
  next entry known =>
    refine .inr ⟨entry, known, ?_⟩
    by_cases blocked : a.nowMs ≤ entry.blockedUntilMs
    · rw [if_pos blocked]
      exact .inl ⟨blocked, rfl, known⟩
    · rw [if_neg blocked]
      right
      by_cases past : judged target entry a.nowMs > grace
      · exact .inl ⟨Nat.not_le.mp blocked, past, by rw [← judged, if_pos past], by rw [← judged, if_pos past]⟩
      · exact .inr ⟨Nat.not_le.mp blocked, Nat.not_lt.mp past, by rw [← judged, if_neg past], by rw [← judged, if_neg past]⟩

theorem passes_cons (a : Announce) (blocked : Bool) (trace : List (Announce × Bool)) :
    passes start stop ((a, blocked) :: trace) =
      passes start stop trace + if !blocked && decide (start ≤ a.nowMs ∧ a.nowMs ≤ stop) then 1 else 0 :=
  List.countP_cons

theorem passes_of_late {trace : List (Announce × Bool)} (late : ∀ heard ∈ trace, stop < heard.1.nowMs) :
    passes start stop trace = 0 := by
  rw [passes, List.countP_eq_zero]
  rintro ⟨a, blocked⟩ member counted
  have after : stop < a.nowMs := late _ member
  simp only [Bool.and_eq_true, decide_eq_true_eq] at counted
  omega

theorem judged_spends {entry : AnnounceRateEntry} {nowMs : Nat} (positive : 0 < target) (small : grace < 255)
    (after : entry.lastMs ≤ nowMs) (inside : nowMs ≤ stop) (passed : judged target entry nowMs ≤ grace) :
    1 + (grace - judged target entry nowMs) + 2 * ((stop - nowMs) / target) ≤
      (grace - entry.rateViolations) + 2 * ((stop - entry.lastMs) / target) := by
  unfold judged at *
  split_ifs at * with fast
  · have more : (stop - nowMs) / target ≤ (stop - entry.lastMs) / target := Nat.div_le_div_right (by omega)
    unfold saturatingAddU8 at *
    omega
  · have more : (stop - nowMs) / target + 1 ≤ (stop - entry.lastMs) / target := by
      rw [← Nat.add_div_right _ positive]
      exact Nat.div_le_div_right (by omega)
    omega

theorem passes_after (start stop : Nat) (positive : 0 < target) (small : grace < 255) {trace : List (Announce × Bool)}
    {entry : AnnounceRateEntry} {last : Option AnnounceRateEntry} (kept : RateKept cfg (some entry) trace last)
    (limited : Limited cfg target grace penaltyMs trace) (ordered : Ordered trace)
    (after : ∀ heard ∈ trace, entry.lastMs ≤ heard.1.nowMs) :
    passes start stop trace ≤ (grace - entry.rateViolations) + 2 * ((stop - entry.lastMs) / target) := by
  induction trace generalizing entry with
  | nil => exact Nat.zero_le _
  | cons heard trace ih =>
    cases kept with
    | @cons r a blocked _ _ _ same checked later =>
    have limited' : Limited cfg target grace penaltyMs trace := fun heard member =>
      limited heard (List.mem_cons_of_mem _ member)
    have ordered' := List.pairwise_cons.mp ordered
    have afterNow : entry.lastMs ≤ a.nowMs := after _ List.mem_cons_self
    have limitedNow : cfg.effectiveAnnounceRate a.interfaceIndex = some (target, grace, penaltyMs) :=
      limited _ List.mem_cons_self
    rcases checkAnnounceRate_cases (r := r) limitedNow with
      ⟨unseen, -, -⟩ | ⟨known, found, ⟨-, result, rate⟩ | ⟨-, past, result, rate⟩ | ⟨-, passed, result, rate⟩⟩
    · rw [same] at unseen
      cases unseen
    · obtain rfl := Option.some.inj (same.symm.trans found)
      rw [rate] at later
      rw [passes_cons, ← checked, result]
      exact ih later limited' ordered'.2 (fun heard member => after heard (List.mem_cons_of_mem _ member))
    · obtain rfl := Option.some.inj (same.symm.trans found)
      rw [rate] at later
      rw [passes_cons, ← checked, result]
      have bound := ih later limited' ordered'.2 (fun heard member => after heard (List.mem_cons_of_mem _ member))
      rw [Nat.sub_eq_zero_of_le (Nat.le_of_lt past)] at bound
      dsimp only at bound
      simp only [Bool.not_true, Bool.false_and, Bool.false_eq_true, ↓reduceIte]
      omega
    · obtain rfl := Option.some.inj (same.symm.trans found)
      rw [rate] at later
      have bound := ih later limited' ordered'.2 (fun heard member => ordered'.1 heard member)
      rw [passes_cons, ← checked, result]
      by_cases inside : a.nowMs ≤ stop
      · have spent := judged_spends positive small afterNow inside passed
        dsimp only at bound
        split_ifs
        · omega
        · omega
      · have rest : passes start stop trace = 0 := passes_of_late (fun heard member => by
          have := ordered'.1 heard member
          dsimp only at this
          omega)
        rw [rest, if_neg (by simp [inside])]
        exact Nat.zero_le _

theorem passes_le (start stop : Nat) (positive : 0 < target) (small : grace < 255) {trace : List (Announce × Bool)}
    {rate last : Option AnnounceRateEntry} (kept : RateKept cfg rate trace last)
    (limited : Limited cfg target grace penaltyMs trace) (ordered : Ordered trace) :
    passes start stop trace ≤ grace + 1 + 2 * ((stop - start) / target) := by
  induction kept with
  | nil rate => exact Nat.zero_le _
  | @cons r a blocked rate last rest same checked later ih =>
    have limited' : Limited cfg target grace penaltyMs rest := fun heard member =>
      limited heard (List.mem_cons_of_mem _ member)
    have ordered' := List.pairwise_cons.mp ordered
    rw [passes_cons]
    split_ifs with counted
    · simp only [Bool.and_eq_true, Bool.not_eq_true', decide_eq_true_eq] at counted
      obtain ⟨unblocked, from_, until_⟩ := counted
      obtain ⟨entry, stored, now⟩ : ∃ entry, (r.checkAnnounceRate cfg a).2.rate = some entry ∧ entry.lastMs = a.nowMs := by
        rcases checkAnnounceRate_cases (r := r) (limited _ List.mem_cons_self) with
          ⟨-, -, rate⟩ | ⟨known, -, ⟨-, result, -⟩ | ⟨-, -, result, -⟩ | ⟨-, -, -, rate⟩⟩
        · exact ⟨_, rate, rfl⟩
        · rw [← checked, result] at unblocked
          cases unblocked
        · rw [← checked, result] at unblocked
          cases unblocked
        · exact ⟨_, rate, rfl⟩
      rw [stored] at later
      have bound := passes_after start stop positive small later limited' ordered'.2 (fun heard member => now ▸ ordered'.1 heard member)
      have less : (stop - entry.lastMs) / target ≤ (stop - start) / target := Nat.div_le_div_right (by omega)
      omega
    · exact ih limited' ordered'.2

/-- Past the grace by one at most, and then blocked until the next announce is a slow one. -/
def Reined (target grace : Nat) (rate : Option AnnounceRateEntry) : Prop :=
  ∀ entry, rate = some entry → entry.rateViolations ≤ grace ∨
    (entry.rateViolations = grace + 1 ∧ entry.lastMs + target ≤ entry.blockedUntilMs)

theorem reined_step {r : Route} {a : Announce} (small : grace < 255)
    (limited : cfg.effectiveAnnounceRate a.interfaceIndex = some (target, grace, penaltyMs))
    (reined : Reined target grace r.rate) : Reined target grace (r.checkAnnounceRate cfg a).2.rate := by
  intro entry' stored
  rcases checkAnnounceRate_cases (r := r) limited with
    ⟨-, -, rate⟩ | ⟨entry, found, ⟨-, -, rate⟩ | ⟨free, past, -, rate⟩ | ⟨-, passed, -, rate⟩⟩
  · obtain rfl := Option.some.inj (rate.symm.trans stored)
    exact .inl (Nat.zero_le _)
  · obtain rfl := Option.some.inj (rate.symm.trans stored)
    exact reined entry found
  · obtain rfl := Option.some.inj (rate.symm.trans stored)
    right
    unfold judged at *
    rcases reined entry found with within | ⟨full, until_⟩
    · split_ifs at * with fast
      · simp only [saturatingAddU8] at *
        omega
      · omega
    · split_ifs at * with fast
      · omega
      · omega
  · obtain rfl := Option.some.inj (rate.symm.trans stored)
    exact .inl passed

theorem RateKept.reined (small : grace < 255) {trace : List (Announce × Bool)} {rate last : Option AnnounceRateEntry}
    (kept : RateKept cfg rate trace last) (limited : Limited cfg target grace penaltyMs trace)
    (start : Reined target grace rate) : Reined target grace last := by
  induction kept with
  | nil rate => exact start
  | cons same checked later ih =>
    exact ih (fun heard member => limited heard (List.mem_cons_of_mem _ member))
      (reined_step small (limited _ List.mem_cons_self) (same ▸ start))

end

/-- In any stretch of time the limit lets through the grace, two more, and two for each whole target in it;
the violations stay within one of the grace. -/
theorem announce_rate_limits {cfg : AnnounceConfig} {target grace penaltyMs : Nat} (positive : 0 < target)
    (small : grace < 255) {trace : List (Announce × Bool)} {last : Option AnnounceRateEntry}
    (kept : RateKept cfg none trace last) (limited : Limited cfg target grace penaltyMs trace) (ordered : Ordered trace) :
    (∀ start length, passes start (start + length) trace ≤ grace + 2 + 2 * (length / target)) ∧
      ∀ entry, last = some entry → entry.rateViolations ≤ grace + 1 := by
  constructor
  · intro start length
    have bound := passes_le start (start + length) positive small kept limited ordered
    rw [Nat.add_sub_cancel_left] at bound
    omega
  · intro entry stored
    have reined := kept.reined small limited (fun entry unseen => by cases unseen)
    rcases reined entry stored with within | ⟨full, -⟩
    · omega
    · omega

def strictNode : AnnounceConfig where
  pathExpiryMs := fun _ => 604800000
  isLocalClient := fun _ => false
  interfaceTransit := fun _ => true
  effectiveAnnounceRate := fun _ => some (1000, 0, 0)
  announceWaitMs := fun _ _ => 0

def heardAt (nowMs : Nat) : Announce where
  randomHash := FixedBytes.replicate 10 0
  hops := 1
  interfaceIndex := 0
  transportId := none
  ingressPeer := none
  isPathResponse := false
  raw := []
  nowMs := nowMs

/-- The second of three announces comes too soon. -/
theorem announce_rate_limits_strict :
    passes 10 (10 + 1001) [(heardAt 10, false), (heardAt 20, true), (heardAt 1011, false)] ≤ 0 + 2 + 2 * (1001 / 1000) := by
  have first : RateKept strictNode none [(heardAt 10, false), (heardAt 20, true), (heardAt 1011, false)]
      (some ⟨1011, 0, 1010⟩) :=
    .cons (r := {}) rfl rfl (.cons (r := { rate := some ⟨10, 0, 0⟩ }) rfl rfl
      (.cons (r := { rate := some ⟨10, 1, 1010⟩ }) rfl rfl (.nil _)))
  have limited : Limited strictNode 1000 0 0 [(heardAt 10, false), (heardAt 20, true), (heardAt 1011, false)] :=
    fun _ _ => rfl
  have ordered : Ordered [(heardAt 10, false), (heardAt 20, true), (heardAt 1011, false)] := by
    simp [Ordered, heardAt]
  exact (announce_rate_limits (by decide) (by decide) first limited ordered).1 10 1001

end Leviculum.Transport
