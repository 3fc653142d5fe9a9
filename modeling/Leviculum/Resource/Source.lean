import Leviculum.Resource.Message

/-! A payload read on demand: what a source yields on a pass, and the reader that checks its length. -/

namespace Leviculum.Resource

/-- A `dyn ResourceSource`. Its length is fixed for its life, and a read writes at most the buffer it is given. -/
structure ResourceSource where
  State : Type
  totalLen : Nat
  rewind : State → Except SourceError State
  read : State → (room : Nat) → Except SourceError ({ bytes : Bytes // bytes.length ≤ room } × State)

namespace ResourceSource

/-- Every read up to the end of the stream, in order. -/
inductive Pass (source : ResourceSource) (room : Nat) : source.State → List Bytes → source.State → Prop where
  | done {state after : source.State} {bytes : { bytes : Bytes // bytes.length ≤ room }}
      (read : source.read state room = .ok (bytes, after)) (empty : bytes.val = []) :
      Pass source room state [] after
  | more {state next after : source.State} {bytes : { bytes : Bytes // bytes.length ≤ room }} {chunks : List Bytes}
      (read : source.read state room = .ok (bytes, next)) (nonempty : bytes.val ≠ [])
      (rest : Pass source room next chunks after) : Pass source room state (bytes.val :: chunks) after

variable {Fed : Type}

/-- The loop of `read_all`. Every turn but the last sees at least one more byte. -/
def readLoop (source : ResourceSource) (room : Nat) (sink : Fed → Bytes → Fed) :
    Nat → Nat → Fed → source.State → Except SourceError (Fed × source.State)
  | 0, _, _, _ => .error .lengthChanged
  | fuel + 1, seen, fed, state =>
    match source.read state room with
    | .error error => .error error
    | .ok (bytes, next) =>
      if bytes.val.isEmpty then
        if seen ≠ source.totalLen then .error .lengthChanged else .ok (fed, next)
      else if seen + bytes.val.length > source.totalLen then .error .lengthChanged
      else readLoop source room sink fuel (seen + bytes.val.length) (sink fed bytes.val) next

def readAll (source : ResourceSource) (room : Nat) (sink : Fed → Bytes → Fed) (fed : Fed) (state : source.State) :
    Except SourceError (Fed × source.State) :=
  source.readLoop room sink (source.totalLen + 1) 0 fed state

variable {source : ResourceSource} {room : Nat} {sink : Fed → Bytes → Fed}

theorem Pass.readLoop_eq {state after : source.State} {chunks : List Bytes} (pass : source.Pass room state chunks after)
    {fuel seen : Nat} (fed : Fed) (enough : source.totalLen < fuel + seen) (inside : seen ≤ source.totalLen) :
    source.readLoop room sink fuel seen fed state =
      if seen + chunks.flatten.length = source.totalLen then .ok (chunks.foldl sink fed, after)
      else .error .lengthChanged := by
  induction pass generalizing fuel seen fed with
  | done read empty =>
    cases fuel with
    | zero => omega
    | succ fuel =>
      simp only [readLoop, read, empty, List.isEmpty_nil, if_pos, List.flatten_nil, List.length_nil, Nat.add_zero,
        List.foldl_nil, ne_eq, ite_not]
  | @more state next after bytes chunks read nonempty rest ih =>
    cases fuel with
    | zero => omega
    | succ fuel =>
      have grows : 0 < bytes.val.length := List.length_pos_iff.mpr nonempty
      simp only [readLoop, read, List.isEmpty_iff, nonempty, if_false, List.flatten_cons, List.length_append,
        List.foldl_cons]
      by_cases long : seen + bytes.val.length > source.totalLen
      · rw [if_pos long, if_neg (by omega)]
      · rw [if_neg long, ih (sink fed bytes.val) (by omega) (by omega), Nat.add_assoc]

theorem pass_of_readLoop {fuel seen : Nat} {fed fed' : Fed} {state after : source.State}
    (taken : source.readLoop room sink fuel seen fed state = .ok (fed', after)) :
    ∃ chunks, source.Pass room state chunks after ∧ seen + chunks.flatten.length = source.totalLen ∧
      fed' = chunks.foldl sink fed := by
  induction fuel generalizing seen fed state with
  | zero => cases taken
  | succ fuel ih =>
    unfold readLoop at taken
    split at taken
    · cases taken
    next bytes next read =>
      by_cases empty : bytes.val.isEmpty
      · rw [if_pos empty] at taken
        split at taken
        · cases taken
        next whole =>
          cases taken
          exact ⟨[], .done read (List.isEmpty_iff.mp empty), by simpa using whole, rfl⟩
      · rw [if_neg empty] at taken
        split at taken
        · cases taken
        · obtain ⟨chunks, pass, size, rfl⟩ := ih taken
          refine ⟨bytes.val :: chunks, .more read ?_ pass, ?_, rfl⟩
          · rwa [List.isEmpty_iff] at empty
          · rw [List.flatten_cons, List.length_append, ← Nat.add_assoc]
            exact size

theorem Pass.readAll_eq {state after : source.State} {chunks : List Bytes} (pass : source.Pass room state chunks after)
    (fed : Fed) :
    source.readAll room sink fed state =
      if chunks.flatten.length = source.totalLen then .ok (chunks.foldl sink fed, after)
      else .error .lengthChanged := by
  unfold readAll
  rw [pass.readLoop_eq fed (by omega) (Nat.zero_le _), Nat.zero_add]

theorem pass_of_readAll {fed fed' : Fed} {state after : source.State}
    (taken : source.readAll room sink fed state = .ok (fed', after)) :
    ∃ chunks, source.Pass room state chunks after ∧ chunks.flatten.length = source.totalLen ∧
      fed' = chunks.foldl sink fed := by
  obtain ⟨chunks, pass, size, same⟩ := pass_of_readLoop taken
  exact ⟨chunks, pass, by omega, same⟩

/-- The two passes of a build, rewound before each: what the source yields when it is hashed, and when it is
encrypted. -/
def Passes (source : ResourceSource) (room : Nat) (start : source.State) (hashed encrypted : List Bytes) : Prop :=
  ∃ first between second after, source.rewind start = .ok first ∧ source.Pass room first hashed between ∧
    source.rewind between = .ok second ∧ source.Pass room second encrypted after

end ResourceSource

/-! ### Sources -/

/-- `SliceSource`, at a position of its bytes. -/
def sliceSource (bytes : Bytes) : ResourceSource where
  State := Nat
  totalLen := bytes.length
  rewind _ := .ok 0
  read position room :=
    .ok (⟨(bytes.drop position).take room, List.length_take_le room _⟩,
      position + ((bytes.drop position).take room).length)

def sliceAt (bytes : Bytes) (position : Nat) : (sliceSource bytes).State := position

end Leviculum.Resource
