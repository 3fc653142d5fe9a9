import Mathlib.Data.List.AList
import Mathlib.Algebra.Group.Nat.Defs

/-! A directory of files under power cuts. A change of its entries is durable once the directory was
synced; before that it may or may not survive a cut. -/

namespace Leviculum

abbrev Files (Name Content : Type*) := AList (fun _ : Name => Content)

/-- One atomic change: a name goes, a name is placed, or both at once, as a rename does. -/
structure FolderChange (Name Content : Type*) where
  gone : Option Name
  placed : Option (Name × Content)

structure Folder (Name Content : Type*) where
  durable : Files Name Content
  /-- Not synced, oldest first. -/
  pending : List (FolderChange Name Content)

variable {Name Content : Type*} [DecidableEq Name]

theorem lookup_of_lookup_erase {files : Files Name Content} {name other : Name} {content : Content}
    (found : (files.erase name).lookup other = some content) :
    other ≠ name ∧ files.lookup other = some content := by
  by_cases same : other = name
  · subst same
    rw [AList.lookup_erase] at found
    cases found
  · rw [AList.lookup_erase_ne same] at found
    exact ⟨same, found⟩

theorem lookup_insert_cases {files : Files Name Content} {name other : Name} {content found : Content}
    (here : (files.insert name content).lookup other = some found) :
    (other = name ∧ found = content) ∨ (other ≠ name ∧ files.lookup other = some found) := by
  by_cases same : other = name
  · subst same
    rw [AList.lookup_insert] at here
    exact .inl ⟨rfl, (Option.some.inj here).symm⟩
  · rw [AList.lookup_insert_ne same] at here
    exact .inr ⟨same, here⟩

namespace FolderChange

def place (name : Name) (content : Content) : FolderChange Name Content := ⟨none, some (name, content)⟩

def unlink (name : Name) : FolderChange Name Content := ⟨some name, none⟩

def rename (old new : Name) (content : Content) : FolderChange Name Content := ⟨some old, some (new, content)⟩

def without (files : Files Name Content) : Option Name → Files Name Content
  | some name => files.erase name
  | none => files

def apply (files : Files Name Content) (c : FolderChange Name Content) : Files Name Content :=
  match c.placed with
  | some (name, content) => (without files c.gone).insert name content
  | none => without files c.gone

theorem mem_of_mem_without {files : Files Name Content} {gone : Option Name} {name : Name}
    (member : name ∈ without files gone) : name ∈ files := by
  cases gone with
  | none => exact member
  | some other => exact (AList.mem_erase.mp member).2

theorem mem_apply {c : FolderChange Name Content} {files : Files Name Content} {name : Name}
    (member : name ∈ c.apply files) : name ∈ files ∨ c.placed.map Prod.fst = some name := by
  unfold apply at member
  split at member
  next other content here =>
    rcases (AList.mem_insert _).mp member with rfl | inside
    · exact .inr (by rw [here]; rfl)
    · exact .inl (mem_of_mem_without inside)
  · exact .inl (mem_of_mem_without member)

end FolderChange

namespace Folder

/-- What the directory shows. -/
def live (f : Folder Name Content) : Files Name Content := f.pending.foldl FolderChange.apply f.durable

def change (f : Folder Name Content) (c : FolderChange Name Content) : Folder Name Content :=
  { f with pending := f.pending ++ [c] }

/-- `fsync` of the directory. -/
def sync (f : Folder Name Content) : Folder Name Content := ⟨f.live, []⟩

def surviving : List (FolderChange Name Content) → List Bool → List (FolderChange Name Content)
  | c :: rest, keep :: mask => if keep then c :: surviving rest mask else surviving rest mask
  | _, _ => []

def cut (f : Folder Name Content) (mask : List Bool) : Folder Name Content :=
  ⟨(surviving f.pending mask).foldl FolderChange.apply f.durable, []⟩

/-- What may be found after a cut. -/
def Outcome (f : Folder Name Content) (files : Files Name Content) : Prop :=
  ∃ kept : List (FolderChange Name Content), kept.Sublist f.pending ∧ files = kept.foldl FolderChange.apply f.durable

theorem outcome_live (f : Folder Name Content) : f.Outcome f.live := ⟨f.pending, List.Sublist.refl _, rfl⟩

theorem outcome_settled {f : Folder Name Content} (settled : f.pending = []) {files : Files Name Content} :
    f.Outcome files ↔ files = f.durable := by
  constructor
  · rintro ⟨kept, sub, rfl⟩
    rw [settled, List.sublist_nil] at sub
    rw [sub]
    rfl
  · rintro rfl
    exact ⟨[], List.nil_sublist _, rfl⟩

theorem outcome_sync {f : Folder Name Content} {files : Files Name Content} :
    f.sync.Outcome files ↔ files = f.live := outcome_settled rfl

omit [DecidableEq Name] in
theorem surviving_sublist (pending : List (FolderChange Name Content)) (mask : List Bool) :
    (surviving pending mask).Sublist pending := by
  induction pending generalizing mask with
  | nil => exact List.nil_sublist _
  | cons c rest ih =>
    cases mask with
    | nil => exact List.nil_sublist _
    | cons keep mask =>
      unfold surviving
      split
      · exact (ih mask).cons_cons c
      · exact (ih mask).cons c

theorem outcome_of_cut {f : Folder Name Content} {mask : List Bool} {files : Files Name Content}
    (found : (f.cut mask).Outcome files) : f.Outcome files := by
  rw [outcome_settled rfl] at found
  exact ⟨surviving f.pending mask, surviving_sublist f.pending mask, found⟩

theorem outcome_change {f : Folder Name Content} {c : FolderChange Name Content} {files : Files Name Content} :
    (f.change c).Outcome files ↔ f.Outcome files ∨ ∃ earlier, f.Outcome earlier ∧ files = c.apply earlier := by
  constructor
  · rintro ⟨kept, sub, rfl⟩
    obtain ⟨first, last, rfl, inFirst, inLast⟩ := List.sublist_append_iff.mp sub
    rcases List.sublist_singleton.mp inLast with rfl | rfl
    · rw [List.append_nil]
      exact .inl ⟨first, inFirst, rfl⟩
    · rw [List.foldl_append]
      exact .inr ⟨_, ⟨first, inFirst, rfl⟩, rfl⟩
  · rintro (⟨kept, sub, rfl⟩ | ⟨_, ⟨kept, sub, rfl⟩, rfl⟩)
    · exact ⟨kept, sub.trans (List.sublist_append_left _ _), rfl⟩
    · exact ⟨kept ++ [c], sub.append (List.Sublist.refl _), by rw [List.foldl_append]; rfl⟩

/-- What holds of every outcome holds of what is found, whatever is synced or cut. -/
def Always (f : Folder Name Content) (P : Files Name Content → Prop) : Prop := ∀ files, f.Outcome files → P files

theorem Always.live {f : Folder Name Content} {P : Files Name Content → Prop} (always : f.Always P) : P f.live :=
  always _ f.outcome_live

theorem Always.sync {f : Folder Name Content} {P : Files Name Content → Prop} (always : f.Always P) : f.sync.Always P := by
  intro files found
  rw [outcome_sync.mp found]
  exact always.live

theorem Always.cut {f : Folder Name Content} {P : Files Name Content → Prop} (always : f.Always P) (mask : List Bool) :
    (f.cut mask).Always P := fun files found => always files (outcome_of_cut found)

theorem Always.change {f : Folder Name Content} {P : Files Name Content → Prop} {c : FolderChange Name Content}
    (always : f.Always P) (kept : ∀ files, P files → P (c.apply files)) : (f.change c).Always P := by
  intro files found
  rcases outcome_change.mp found with before | ⟨earlier, before, rfl⟩
  · exact always files before
  · exact kept earlier (always earlier before)

end Folder

/-! ### Scripts -/

inductive FolderStep (Name Content : Type*) where
  | change (c : FolderChange Name Content)
  | sync

namespace Folder

def run (f : Folder Name Content) : FolderStep Name Content → Folder Name Content
  | .change c => f.change c
  | .sync => f.sync

def runAll (f : Folder Name Content) (steps : List (FolderStep Name Content)) : Folder Name Content := steps.foldl run f

theorem Always.runAll {f : Folder Name Content} {P : Files Name Content → Prop} {steps : List (FolderStep Name Content)}
    (always : f.Always P) (kept : ∀ c, .change c ∈ steps → ∀ files, P files → P (c.apply files)) :
    (f.runAll steps).Always P := by
  induction steps generalizing f with
  | nil => exact always
  | cons step rest ih =>
    have next : (f.run step).Always P := by
      cases step with
      | change c => exact always.change (kept c List.mem_cons_self)
      | sync => exact always.sync
    exact ih next fun c member => kept c (List.mem_cons_of_mem _ member)

end Folder

end Leviculum
