import Leviculum.Resource.Message
import Leviculum.Lib.Spacing

/-! Cutting the encrypted stream into parts, and the hashmap over them. -/

namespace Leviculum.Resource

open Blocks Spacing

structure PartCutter where
  sdu : Nat
  parts : List Bytes

namespace PartCutter

def new (sdu : Nat) : PartCutter := ⟨max sdu 1, []⟩

/-- The parts that are full, and the one still open; a new one when the last is full. -/
def openPart (cutter : PartCutter) : List Bytes × Bytes :=
  match cutter.parts.getLast? with
  | some part => if part.length < cutter.sdu then (cutter.parts.dropLast, part) else (cutter.parts, [])
  | none => (cutter.parts, [])

/-- The `while` loop of `put`; every turn takes at least one byte. -/
def putLoop : Nat → PartCutter → Bytes → PartCutter
  | 0, cutter, _ => cutter
  | fuel + 1, cutter, rest =>
    if rest.isEmpty then cutter
    else
      let (closed, part) := cutter.openPart
      let take := min (cutter.sdu - part.length) rest.length
      putLoop fuel { cutter with parts := closed ++ [part ++ rest.take take] } (rest.drop take)

def put (cutter : PartCutter) (bytes : Bytes) : PartCutter := putLoop bytes.length cutter bytes

structure Valid (cutter : PartCutter) : Prop where
  positive : 0 < cutter.sdu
  cut : IsCut cutter.sdu cutter.parts

theorem valid_new (sdu : Nat) : (new sdu).Valid where
  positive := by show 0 < max sdu 1; omega
  cut := isCut_nil _

theorem openPart_spec {cutter : PartCutter} (valid : cutter.Valid) :
    (∀ part ∈ cutter.openPart.1, part.length = cutter.sdu) ∧
      cutter.openPart.2.length < cutter.sdu ∧
      cutter.openPart.1.flatten ++ cutter.openPart.2 = cutter.parts.flatten := by
  unfold openPart
  rcases valid.cut.cases with empty | ⟨closed, last, split, full, -, fits⟩
  · simp [empty, valid.positive]
  · rw [split, List.getLast?_concat]
    dsimp only
    by_cases room : last.length < cutter.sdu
    · rw [if_pos room, List.dropLast_concat]
      exact ⟨full, room, by simp⟩
    · rw [if_neg room]
      refine ⟨?_, valid.positive, by simp⟩
      intro part member
      rcases List.mem_append.mp member with old | new
      · exact full part old
      · rw [List.mem_singleton.mp new]
        omega

theorem putLoop_spec (fuel : Nat) {cutter : PartCutter} (valid : cutter.Valid) (rest : Bytes)
    (enough : rest.length ≤ fuel) :
    (putLoop fuel cutter rest).Valid ∧ (putLoop fuel cutter rest).sdu = cutter.sdu ∧
      (putLoop fuel cutter rest).parts.flatten = cutter.parts.flatten ++ rest := by
  induction fuel generalizing cutter rest with
  | zero =>
    have empty : rest = [] := List.length_eq_zero_iff.mp (by omega)
    subst empty
    exact ⟨valid, rfl, by simp [putLoop]⟩
  | succ fuel ih =>
    unfold putLoop
    by_cases empty : rest.isEmpty
    · rw [if_pos empty]
      rw [List.isEmpty_iff.mp empty, List.append_nil]
      exact ⟨valid, rfl, rfl⟩
    · rw [if_neg empty]
      have nonempty : 0 < rest.length := by
        rw [List.isEmpty_iff] at empty
        exact List.length_pos_iff.mpr empty
      obtain ⟨full, room, joined⟩ := openPart_spec valid
      dsimp only
      generalize cutter.openPart.1 = closed at full joined ⊢
      generalize cutter.openPart.2 = part at room joined ⊢
      have taken : (rest.take (min (cutter.sdu - part.length) rest.length)).length =
          min (cutter.sdu - part.length) rest.length := by
        rw [List.length_take]
        omega
      have grown : Valid { cutter with
          parts := closed ++ [part ++ rest.take (min (cutter.sdu - part.length) rest.length)] } :=
        { positive := valid.positive
          cut := isCut_concat full
            (by rw [List.length_append, taken]; omega)
            (by rw [List.length_append, taken]; show _ ≤ cutter.sdu; omega) }
      obtain ⟨valid', size, stream⟩ := ih grown
        (rest.drop (min (cutter.sdu - part.length) rest.length))
        (by rw [List.length_drop]; omega)
      refine ⟨valid', size, ?_⟩
      rw [stream, ← joined]
      simp only [List.flatten_append, List.flatten_singleton, List.append_assoc,
        List.take_append_drop]

theorem put_spec {cutter : PartCutter} (valid : cutter.Valid) (bytes : Bytes) :
    (cutter.put bytes).Valid ∧ (cutter.put bytes).sdu = cutter.sdu ∧
      (cutter.put bytes).parts.flatten = cutter.parts.flatten ++ bytes :=
  putLoop_spec bytes.length valid bytes (Nat.le_refl _)

theorem foldl_put_spec {cutter : PartCutter} (valid : cutter.Valid) (chunks : List Bytes) :
    (chunks.foldl put cutter).Valid ∧ (chunks.foldl put cutter).sdu = cutter.sdu ∧
      (chunks.foldl put cutter).parts.flatten = cutter.parts.flatten ++ chunks.flatten := by
  induction chunks generalizing cutter with
  | nil => exact ⟨valid, rfl, by simp⟩
  | cons chunk chunks ih =>
    obtain ⟨valid', size, stream⟩ := put_spec valid chunk
    obtain ⟨valid'', size', stream'⟩ := ih valid'
    rw [List.foldl_cons]
    refine ⟨valid'', size'.trans size, ?_⟩
    rw [stream', stream, List.flatten_cons, List.append_assoc]

end PartCutter

/-- The loop of `map_parts`: every hash is held against the `COLLISION_GUARD_SIZE` before it. -/
def mapPartsLoop (P : Primitives) (randomHash : RandomHash) :
    List MapHash → List Bytes → Option (List MapHash)
  | _, [] => some []
  | collisionGuard, part :: parts =>
    let mh := P.mapHash part randomHash
    if collisionGuard.contains mh then none
    else
      let collisionGuard := collisionGuard ++ [mh]
      let collisionGuard :=
        if collisionGuard.length > collisionGuardSize then collisionGuard.tail else collisionGuard
      (mapPartsLoop P randomHash collisionGuard parts).map (mh :: ·)

def mapParts (P : Primitives) (parts : List Bytes) (randomHash : RandomHash) :
    Option (List MapHash) :=
  mapPartsLoop P randomHash [] parts

theorem mapPartsLoop_spec {P : Primitives} {randomHash : RandomHash} {parts : List Bytes}
    {before entries : List MapHash} (spaced : DistinctWithin collisionGuardSize before)
    (mapped : mapPartsLoop P randomHash (before.drop (before.length - collisionGuardSize)) parts =
      some entries) :
    entries = parts.map (fun part => P.mapHash part randomHash) ∧
      DistinctWithin collisionGuardSize (before ++ entries) := by
  induction parts generalizing before entries with
  | nil =>
    obtain rfl := Option.some.inj mapped
    exact ⟨rfl, by rwa [List.append_nil]⟩
  | cons part parts ih =>
    unfold mapPartsLoop at mapped
    dsimp only at mapped
    split at mapped
    next => cases mapped
    next fresh =>
      rw [drop_concat_slides before] at mapped
      obtain ⟨rest, later, rfl⟩ := Option.map_eq_some_iff.mp mapped
      have absent : P.mapHash part randomHash ∉ before.drop (before.length - collisionGuardSize) := by
        simpa using fresh
      obtain ⟨hashes, spaced'⟩ := ih (spaced.concat absent) later
      refine ⟨by rw [List.map_cons, hashes], ?_⟩
      simpa using spaced'

theorem mapParts_spec {P : Primitives} {parts : List Bytes} {randomHash : RandomHash}
    {entries : List MapHash} (mapped : mapParts P parts randomHash = some entries) :
    entries = parts.map (fun part => P.mapHash part randomHash) ∧
      DistinctWithin collisionGuardSize entries := by
  have spec : entries = parts.map (fun part => P.mapHash part randomHash) ∧
      DistinctWithin collisionGuardSize ([] ++ entries) :=
    mapPartsLoop_spec (distinctWithin_nil collisionGuardSize) mapped
  exact spec

theorem mapPartsLoop_of_nodup {P : Primitives} {randomHash : RandomHash} {parts : List Bytes}
    {collisionGuard : List MapHash}
    (distinct : (collisionGuard ++ parts.map (fun part => P.mapHash part randomHash)).Nodup) :
    mapPartsLoop P randomHash collisionGuard parts =
      some (parts.map (fun part => P.mapHash part randomHash)) := by
  induction parts generalizing collisionGuard with
  | nil => rfl
  | cons part parts ih =>
    rw [List.map_cons] at distinct
    have fresh : ¬ collisionGuard.contains (P.mapHash part randomHash) = true := by
      rw [List.contains_iff_mem]
      intro member
      exact (List.nodup_append.mp distinct).2.2 _ member _ List.mem_cons_self rfl
    have slid : ((collisionGuard ++ [P.mapHash part randomHash]) ++
        parts.map (fun part => P.mapHash part randomHash)).Nodup := by
      rw [List.append_assoc, List.singleton_append]
      exact distinct
    unfold mapPartsLoop
    dsimp only
    rw [if_neg fresh, ih]
    · rfl
    · split
      · exact slid.sublist ((List.tail_sublist _).append_right _)
      · exact slid

end Leviculum.Resource
