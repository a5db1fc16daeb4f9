import LedgerFS.Fuse.InodeTable

/-!
# Restricted runs

What a client may ask for decides which paths get an inode: the path it looks for, the
accounts of the moment when `/accounts` is listed, and the two files of an account whose
directory is listed (`after_enters`).  A run in which only some actions are allowed, and
none of them enters a path of some kind, never has a path of that kind
(`free_of_restricted`).
-/

namespace LedgerFS.Fuse

open LedgerFS.Core
open LedgerFS.Library.Interning
open LedgerFilesystem

variable {ε : Type}

/-- A step in which the action is allowed. -/
inductive RestrictedStep (ε : Type) (Allowed : LedgerFilesystem → Action → Prop) :
    World → World → Prop
  | act {w : World} {k : Nat} {fs : LedgerFilesystem} (repos : Repositories ε)
      (now : UInt64) (action : Action) (here : w[k]? = some fs)
      (room : (fs.after repos now action).allocations < 2 ^ 64 - 5)
      (allowed : Allowed fs action) :
      RestrictedStep ε Allowed w (w.set k (fs.after repos now action))
  | clone {w : World} {k : Nat} {fs : LedgerFilesystem} (here : w[k]? = some fs) :
      RestrictedStep ε Allowed w (w ++ [fs.clone])

/-- The runs of such steps. -/
abbrev RestrictedRun (ε : Type) (Allowed : LedgerFilesystem → Action → Prop) (w : World) : Prop :=
  Relation.ReflTransGen (RestrictedStep ε Allowed) [LedgerFilesystem.new] w

section Free

variable {Allowed : LedgerFilesystem → Action → Prop} {P : String → Prop}

theorem RestrictedStep.step {w w' : World} (h : RestrictedStep ε Allowed w w') :
    Step ε w w' := by
  cases h with
  | act repos now action here room _ => exact Step.act repos now action here room
  | clone here => exact Step.clone here

/-- No inode has a path of the kind. -/
def Free (P : String → Prop) (fs : LedgerFilesystem) : Prop :=
  ∀ ino path, fs.getPath ino = some path → ¬ P path

/-- **One action** that enters no path of the kind. -/
theorem Free.after {fs : LedgerFilesystem} {t : Interned String} (hFree : Free P fs)
    (h : Holds fs t) (repos : Repositories ε) (now : UInt64) {action : Action}
    (hRoom : (fs.after repos now action).allocations < 2 ^ 64 - 5)
    (hEnters : ∀ path, fs.Enters path action → ¬ P path) :
    Free P (fs.after repos now action) := by
  obtain ⟨paths, hAfter, hPaths⟩ := fs.after_enters repos now action
  rw [hAfter] at hRoom ⊢
  have hTable := h.allocate paths (fun p hp => (hPaths p hp).names.isChild) hRoom
  intro ino path hPath
  rcases (t.mem_internAll paths path).mp (hTable.represents.mem_of_getPath hPath) with hOld | hNew
  · obtain ⟨old, hKey⟩ := h.represents.exists_inode hOld
    exact hFree old path ((h.represents.getPath_iff old path).mpr hKey)
  · exact hEnters path (hPaths path hNew)

/-- **A whole run** in which no action enters a path of the kind. -/
theorem free_of_restricted (hFixed : ∀ path ∈ fixedPaths.keys, ¬ P path)
    (hAllowed : ∀ fs action path, Allowed fs action → fs.Enters path action → ¬ P path)
    {w : World} (h : RestrictedRun ε Allowed w) : Reachable ε w ∧ ∀ fs ∈ w, Free P fs := by
  induction h with
  | refl =>
      refine ⟨Relation.ReflTransGen.refl, ?_⟩
      intro fs hMem ino path hPath
      rw [List.mem_singleton.mp hMem] at hPath
      exact hFixed path (holds_new.represents.mem_of_getPath hPath)
  | tail _ hStep ih =>
      obtain ⟨hReachable, hFree⟩ := ih
      refine ⟨hReachable.tail hStep.step, ?_⟩
      cases hStep with
      | @act k fs repos now action here room allowed =>
          obtain ⟨t, ht⟩ := hReachable.sound k fs here
          intro other hOther
          rcases List.mem_or_eq_of_mem_set hOther with hOld | rfl
          · exact hFree other hOld
          · exact Free.after (hFree fs (List.mem_of_getElem? here)) ht repos now room
              fun path => hAllowed fs action path allowed
      | @clone k fs here =>
          intro other hOther
          rcases List.mem_append.mp hOther with hOld | hNew
          · exact hFree other hOld
          · rw [List.mem_singleton.mp hNew]
            exact hFree fs (List.mem_of_getElem? here)

end Free

end LedgerFS.Fuse
