import Inlay.Proofs.Run
import Inlay.Proofs.Disk.Tree
import Inlay.Proofs.Disk.Written

/-!
# What changes of a disk do

* `Disk.Alters` — a later disk differs from an earlier one by new directories, and at given locations.
* `Disk.Gains` — a later disk differs from an earlier one by new directories only.
* `Disk.emptied` — a disk with everything in one directory removed.
* `DiskAction.ensureDirectory_cases`, `DiskAction.writeBytes_cases`, `DiskAction.disk_emptyDirectory` —
  the changes, case by case.

Main statements: `DiskAction.gains_makeDirectories` (making directories adds directories on the way to a
path, and nothing else), `DiskAction.isDirectory_makeDirectories` (when it ends well the directory is
there), `DiskAction.isTree_makeDirectories`.
-/

namespace Inlay

namespace Disk

variable {d d' d'' : Disk} {new new' touched touched' : Location → Prop}

/-- Apart from the locations `touched`, the disk `d'` is `d` with further directories, each at a location with
the property `new`. -/
structure Alters (new touched : Location → Prop) (d d' : Disk) : Prop where
  working : d'.working = d.working
  node? : ∀ k, ¬ touched k → d'.node? k = d.node? k ∨
    d.node? k = none ∧ d'.node? k = some .directory ∧ new k

namespace Alters

theorem refl (new touched : Location → Prop) (d : Disk) : d.Alters new touched d := ⟨rfl, fun _ _ => .inl rfl⟩

theorem trans (h : d.Alters new touched d') (h' : d'.Alters new touched d'') : d.Alters new touched d'' where
  working := h'.working.trans h.working
  node? k hk := by
    rcases h'.node? k hk with h₂ | ⟨h₂, hd, hn⟩
    · rcases h.node? k hk with h₁ | ⟨h₁, hd', hn⟩
      · exact .inl (h₂.trans h₁)
      · exact .inr ⟨h₁, h₂.trans hd', hn⟩
    · rcases h.node? k hk with h₁ | ⟨-, hd', -⟩
      · exact .inr ⟨h₁ ▸ h₂, hd, hn⟩
      · rw [h₂] at hd'
        cases hd'

theorem mono (h : d.Alters new touched d') (hn : ∀ k, new k → new' k) (ho : ∀ k, touched k → touched' k) :
    d.Alters new' touched' d' :=
  ⟨h.working, fun k hk => (h.node? k fun hover => hk (ho k hover)).imp_right
    fun ⟨h₁, h₂, h₃⟩ => ⟨h₁, h₂, hn k h₃⟩⟩

/-- The files are the same on both disks, apart from the locations `touched`. -/
theorem file_iff (h : d.Alters new touched d') {k : Location} (hk : ¬ touched k) {content : Bytes} :
    d'.node? k = some (.file content) ↔ d.node? k = some (.file content) := by
  rcases h.node? k hk with h' | ⟨h₁, h₂, -⟩
  · rw [h']
  · simp [h₁, h₂]

theorem put {l : Location} (hl : l ≠ []) (node : Node) (ho : touched l) :
    d.Alters new touched (d.put l node) where
  working := rfl
  node? k hk := by
    rw [node?_put d hl, if_neg]
    · exact .inl rfl
    · rintro rfl
      exact hk ho

end Alters

/-- The disk `d'` is `d` with further directories, each at a location with the property `new`. -/
def Gains (new : Location → Prop) (d d' : Disk) : Prop := d.Alters new (fun _ => False) d'

namespace Gains

theorem refl (new : Location → Prop) (d : Disk) : d.Gains new d := Alters.refl _ _ d

theorem trans (h : d.Gains new d') (h' : d'.Gains new d'') : d.Gains new d'' := Alters.trans h h'

theorem mono (h : d.Gains new d') (hn : ∀ k, new k → new' k) : d.Gains new' d' := Alters.mono h hn fun _ => id

theorem alters (h : d.Gains new d') (touched : Location → Prop) : d.Alters new touched d' :=
  Alters.mono h (fun _ => id) nofun

theorem node? (h : d.Gains new d') (k : Location) :
    d'.node? k = d.node? k ∨ d.node? k = none ∧ d'.node? k = some .directory ∧ new k :=
  Alters.node? h k id

theorem keeps (h : d.Gains new d') : d.Keeps d' where
  working := h.working
  directory hk := by
    rcases h.node? _ with h' | ⟨h', -⟩
    · rwa [h']
    · rw [h'] at hk
      cases hk
  file hk := by
    rcases h.node? _ with h' | ⟨h', -⟩
    · exact ⟨_, h'.trans hk⟩
    · rw [h'] at hk
      cases hk

theorem put {l : Location} (hl : l ≠ []) (hfree : d.node? l = none) (hn : new l) :
    d.Gains new (d.put l .directory) where
  working := rfl
  node? k _ := by
    rw [node?_put d hl]
    split
    · rename_i hk
      subst hk
      exact .inr ⟨hfree, rfl, hn⟩
    · exact .inl rfl

end Gains

/-- The disk with everything in the directory at `p` removed; the same disk if there is no directory. -/
def emptied (d : Disk) (p : Path) : Disk :=
  match d.follow p with
  | .ok (.present l .directory) => d.clear l
  | _ => d

theorem emptied_eq_clear {p : Path} (h : d.isDirectory p = .ok true) :
    d.emptied p = d.clear (d.locate p) := by
  obtain ⟨ho, hn⟩ := isDirectory_eq_true_iff.mp h
  unfold emptied
  rw [follow_eq_present_iff.mpr ⟨ho, rfl, hn⟩]

theorem emptied_eq_self {p : Path} (h : d.isDirectory p ≠ .ok true) : d.emptied p = d := by
  unfold emptied
  split
  · rename_i l hf
    obtain ⟨ho, rfl, hn⟩ := follow_eq_present_iff.mp hf
    exact absurd (isDirectory_eq_true_iff.mpr ⟨ho, hn⟩) h
  · rfl

/-- What does not lie below the emptied location stays as it is. -/
theorem node?_emptied_of_not_below {p : Path} {k : Location} (h : isBelow (d.locate p) k = false) :
    (d.emptied p).node? k = d.node? k := by
  by_cases hp : d.isDirectory p = .ok true
  · rw [emptied_eq_clear hp, node?_clear, h]
    rfl
  · rw [emptied_eq_self hp]

theorem Keeps.put_file {l : Location} {content : Bytes} (hl : l ≠ [])
    (hfree : d.node? l ≠ some .directory) : d.Keeps (d.put l (.file content)) where
  working := rfl
  directory hk := by
    rw [node?_put d hl, if_neg, hk]
    rintro rfl
    exact hfree hk
  file hk := by
    rw [node?_put d hl]
    split
    · exact ⟨_, rfl⟩
    · exact ⟨_, hk⟩

end Disk

namespace DiskAction

open Disk

variable {d d' : Disk} {p : Path} {r : Except DiskError Unit}

theorem run_ask {α : Type} (question : Disk → Except DiskError α) (d : Disk) :
    (ask question).run.run d = (question d, d) := by
  unfold ask
  rw [run_get_bind]
  cases question d <;> rfl

theorem run_makeDirectory (p : Path) (d : Disk) :
    (makeDirectory p).run.run d =
      match d.follow p with
      | .ok (.present _ _) => (.error (.obstacle .alreadyThere p), d)
      | .ok (.vacant l) => (.ok (), d.put l .directory)
      | .error e => (.error e, d) := by
  unfold makeDirectory
  rw [run_bind, run_ask]
  cases d.follow p with
  | error e => rfl
  | ok place => cases place <;> rfl

/-- Making sure of a directory changes the disk where the name is free, and fails on everything that is
no directory. -/
theorem run_ensureDirectory (p : Path) (d : Disk) :
    (ensureDirectory p).run.run d =
      match d.follow p with
      | .ok (.present _ .directory) => (.ok (), d)
      | .ok (.present _ (.file _)) => (.error (.obstacle .alreadyThere p), d)
      | .ok (.vacant l) => (.ok (), d.put l .directory)
      | .error e => (.error e, d) := by
  have hquestion : ∀ e : DiskError, (do if ← ask (·.isDirectory p) then pure () else throw e :
      DiskAction Unit).run.run d =
        match d.isDirectory p with
        | .ok true => (.ok (), d)
        | .ok false => (.error e, d)
        | .error e' => (.error e', d) := by
    intro e
    rw [run_bind, run_ask]
    match d.isDirectory p with
    | .ok true => rfl
    | .ok false => rfl
    | .error e' => rfl
  unfold ensureDirectory
  rw [run_tryCatch, run_makeDirectory]
  cases hf : d.follow p with
  | error e =>
    dsimp only
    rcases follow_eq_error hf with ⟨rfl, -⟩ | rfl | rfl | ⟨rfl, hlong⟩
    · rfl
    · rfl
    · have hno : d.isDirectory p = .ok false := by
        unfold isDirectory probe
        rw [hf]
        rfl
      rw [hquestion, hno]
    · rw [hquestion, isDirectory_eq_error_iff.mpr ⟨hlong, rfl⟩]
  | ok place =>
    cases place with
    | vacant l => rfl
    | present l node =>
      dsimp only
      rw [hquestion]
      cases node <;> (unfold isDirectory probe; rw [hf]; rfl)

theorem run_makeDirectories (p : Path) (d : Disk) :
    (makeDirectories p).run.run d =
      match (ensureDirectory p).run.run d with
      | (.error (.obstacle .missing q), d') =>
        if p.names = [] then (.error (.obstacle .missing q), d')
        else
          match (makeDirectories p.parent).run.run d' with
          | (.ok (), d'') => (ensureDirectory p).run.run d''
          | (.error e, d'') => (.error e, d'')
      | (r, d') => (r, d') := by
  conv => lhs; unfold makeDirectories
  rw [run_tryCatch]
  cases (ensureDirectory p).run.run d with
  | mk r d' =>
    match r with
    | .ok () => rfl
    | .error .nullCharacter => rfl
    | .error (.obstacle .alreadyThere q) => rfl
    | .error (.obstacle .notDirectory q) => rfl
    | .error (.obstacle .isDirectory q) => rfl
    | .error (.obstacle .nameTooLong q) => rfl
    | .error (.obstacle .missing q) =>
      dsimp only
      split
      · rfl
      · rw [run_bind]
        cases (makeDirectories p.parent).run.run d' with
        | mk r' d'' => cases r' <;> rfl

/-- What a sure directory adds, and what it fails on. -/
theorem ensureDirectory_cases (h : (ensureDirectory p).run.run d = (r, d')) :
    (r = .ok () ∧ d'.isDirectory p = .ok true ∧
      (d' = d ∨ ∃ above name, p.names = above ++ [name] ∧ name ≠ Path.upward ∧ d.Opens p ∧
        d.node? (d.locate p) = none ∧ d' = d.put (d.locate p) .directory)) ∨
    (∃ e, r = .error e ∧ d' = d ∧
      (e = .nullCharacter → p.names.any (·.contains '\x00') = true)) := by
  rw [run_ensureDirectory] at h
  cases hf : d.follow p with
  | error e =>
    rw [hf] at h
    cases h
    exact .inr ⟨e, rfl, rfl, fun he => any_contains_of_follow (he ▸ hf)⟩
  | ok place =>
    rw [hf] at h
    cases place with
    | present l node =>
      cases node with
      | file content =>
        cases h
        exact .inr ⟨_, rfl, rfl, by simp⟩
      | directory =>
        cases h
        obtain ⟨ho, rfl, hn⟩ := follow_eq_present_iff.mp hf
        exact .inl ⟨rfl, isDirectory_eq_true_iff.mpr ⟨ho, hn⟩, .inl rfl⟩
    | vacant l =>
      cases h
      obtain ⟨above, name, hnames, hup, ho, rfl, hn⟩ := follow_eq_vacant_iff.mp hf
      have hl : d.locate p ≠ [] := by
        intro hnil
        rw [hnil, node?_nil] at hn
        cases hn
      refine .inl ⟨rfl, isDirectory_eq_true_iff.mpr ⟨?_, ?_⟩, .inr ⟨above, name, hnames, hup, ho, hn, rfl⟩⟩
      · exact (Gains.put hl hn trivial : d.Gains (fun _ => True) _).keeps.opens ho
      · rw [show (d.put (d.locate p) .directory).locate = d.locate from rfl, node?_put d hl, if_pos rfl]

theorem isDirectory_ensureDirectory (h : (ensureDirectory p).run.run d = (.ok (), d')) :
    d'.isDirectory p = .ok true := by
  rcases ensureDirectory_cases h with ⟨-, hdir, -⟩ | ⟨_, he, -, -⟩
  · exact hdir
  · cases he

theorem plain_of_ensureDirectory (h : (ensureDirectory p).run.run d = (.error .nullCharacter, d')) :
    p.names.any (·.contains '\x00') = true := by
  rcases ensureDirectory_cases h with ⟨he, -⟩ | ⟨e, he, -, hn⟩
  · cases he
  · cases he
    exact hn rfl

/-- Making directories is making sure of one, at once or behind the directories above it. -/
theorem makeDirectories_induction
    {motive : Path → Disk → Except DiskError Unit → Disk → Prop}
    (ensured : ∀ {p d r d'}, (ensureDirectory p).run.run d = (r, d') → motive p d r d')
    (behind : ∀ {p d d₁ r d'}, motive p.parent d (.ok ()) d₁ →
      (ensureDirectory p).run.run d₁ = (r, d') → motive p d r d')
    (stopped : ∀ {p d e d'}, motive p.parent d (.error e) d' → motive p d (.error e) d')
    {p : Path} {d : Disk} {r : Except DiskError Unit} {d' : Disk}
    (h : (makeDirectories p).run.run d = (r, d')) : motive p d r d' := by
  induction hlen : p.names.length generalizing p d r d' with
  | zero =>
    have hnil := List.length_eq_zero_iff.mp hlen
    rw [run_makeDirectories] at h
    split at h
    · rename_i q d₁ he
      rw [if_pos hnil] at h
      cases h
      exact ensured he
    · rename_i he
      exact ensured (he.trans h)
  | succ n ih =>
    have hne : ¬ p.names = [] := by
      intro hnil
      rw [hnil] at hlen
      cases hlen
    rw [run_makeDirectories] at h
    split at h
    · rename_i q d₁ he
      rw [if_neg hne] at h
      -- A failed attempt changes nothing, so the directories above are made on the disk itself.
      obtain rfl : d₁ = d := by
        rcases ensureDirectory_cases he with ⟨hr, -⟩ | ⟨_, -, h', -⟩
        · cases hr
        · exact h'
      have hparent : p.parent.names.length = n := by
        rw [Path.parent, List.length_dropLast]
        omega
      split at h
      · rename_i d₂ hp
        exact behind (ih hp hparent) h
      · rename_i e d₂ hp
        cases h
        exact stopped (ih hp hparent)
    · rename_i he
      exact ensured (he.trans h)

/-- The locations on the way to a path. -/
def OnWay (d : Disk) (p : Path) (k : Location) : Prop :=
  ∃ names, names <+: p.names ∧ k = walk (d.base p.root) names

theorem onWay_of_parent {k : Location} (h : OnWay d p.parent k) : OnWay d p k := by
  obtain ⟨names, hpre, hk⟩ := h
  exact ⟨names, hpre.trans (List.dropLast_prefix _), hk⟩

theorem onWay_congr (h : d'.working = d.working) : OnWay d' p = OnWay d p := by
  funext k
  unfold OnWay
  rw [base_congr h]

theorem gains_ensureDirectory (h : (ensureDirectory p).run.run d = (r, d')) :
    d.Gains (OnWay d p) d' := by
  rcases ensureDirectory_cases h with ⟨-, -, rfl | ⟨above, name, -, -, -, hn, rfl⟩⟩ | ⟨_, -, rfl, -⟩
  · exact .refl _ _
  · refine .put ?_ hn ⟨p.names, List.prefix_rfl, rfl⟩
    intro hnil
    rw [hnil, node?_nil] at hn
    cases hn
  · exact .refl _ _

/-- **Making directories adds directories on the way to the path, and nothing else**, however it ends. -/
theorem gains_makeDirectories (h : (makeDirectories p).run.run d = (r, d')) :
    d.Gains (OnWay d p) d' := by
  refine makeDirectories_induction (motive := fun p d _ d' => d.Gains (OnWay d p) d')
    gains_ensureDirectory ?_ (fun hparent => hparent.mono fun _ => onWay_of_parent) h
  intro p d d₁ r d' hparent h
  have h₁ := hparent.mono fun _ => onWay_of_parent
  have h₂ := gains_ensureDirectory h
  rw [onWay_congr h₁.working] at h₂
  exact h₁.trans h₂

/-- Where directories have been made, the last of them is there. -/
theorem isDirectory_makeDirectories (h : (makeDirectories p).run.run d = (.ok (), d')) :
    d'.isDirectory p = .ok true := by
  refine makeDirectories_induction (motive := fun p _ r d' => r = .ok () → d'.isDirectory p = .ok true)
    ?_ ?_ (fun _ hr => nomatch hr) h rfl
  · rintro p d r d' h rfl
    exact isDirectory_ensureDirectory h
  · rintro p d d₁ r d' - h rfl
    exact isDirectory_ensureDirectory h

/-- Only a path that holds a null character keeps the system from looking at all. -/
theorem plain_of_makeDirectories (h : (makeDirectories p).run.run d = (.error .nullCharacter, d')) :
    p.names.any (·.contains '\x00') = true := by
  refine makeDirectories_induction
    (motive := fun p _ r _ => r = .error .nullCharacter → p.names.any (·.contains '\x00') = true)
    ?_ ?_ ?_ h rfl
  · rintro p d r d' h rfl
    exact plain_of_ensureDirectory h
  · rintro p d d₁ r d' - h rfl
    exact plain_of_ensureDirectory h
  · intro p d e d' hparent hr
    obtain ⟨name, hmem, hname⟩ := List.any_eq_true.mp (hparent hr)
    exact List.any_eq_true.mpr ⟨name, List.dropLast_subset _ hmem, hname⟩

theorem isTree_ensureDirectory (hd : d.IsTree) (hp : p.Written)
    (h : (ensureDirectory p).run.run d = (r, d')) : d'.IsTree := by
  rcases ensureDirectory_cases h with
    ⟨-, -, rfl | ⟨above, name, hnames, hup, ho, hn, rfl⟩⟩ | ⟨_, -, rfl, -⟩
  · exact hd
  · -- The free place is called by the last name of the path, in the directory that the rest leads to.
    have hlocate : d.locate p = walk (d.base p.root) above ++ [name] := by
      unfold locate
      rw [hnames, walk_append, walk_cons hup, walk_nil]
    have hlast := ho.steps
    rw [hnames, opensFrom_append] at hlast
    obtain ⟨-, hdir, hrest⟩ := hlast
    rw [if_neg hup] at hrest
    have hmem : name ∈ p.names := by simp [hnames]
    obtain ⟨hne, hdot, hslash⟩ := hp name hmem
    have hplain : '\x00' ∉ name := by
      have := List.any_eq_false.mp ho.usable.plain name hmem
      simpa using this
    have hname : IsName name := ⟨hne, hdot, hup, hslash, hplain, hrest.1⟩
    refine hd.put (by simp [hlocate]) ?_ ?_ (by simp [hn])
    · rw [hlocate, List.dropLast_concat]
      exact hdir
    · intro name' hlast'
      rw [hlocate, List.getLast?_concat] at hlast'
      cases hlast'
      exact hname
  · exact hd

theorem isTree_makeDirectories (hd : d.IsTree) (hp : p.Written)
    (h : (makeDirectories p).run.run d = (r, d')) : d'.IsTree := by
  refine makeDirectories_induction (motive := fun p d _ d' => d.IsTree → p.Written → d'.IsTree)
    (fun h hd hp => isTree_ensureDirectory hd hp h) ?_ (fun hparent hd hp => hparent hd hp.parent) h hd hp
  intro p d d₁ r d' hparent h hd hp
  exact isTree_ensureDirectory (hparent hd hp.parent) hp h

/-! ## Writing and emptying -/

/-- Writing puts the content where the path leads, unless a directory is there. -/
theorem writeBytes_cases {content : Bytes} (h : (writeBytes p content).run.run d = (r, d')) :
    (r = .ok () ∧ d.Opens p ∧ d.node? (d.locate p) ≠ some .directory ∧
      d' = d.put (d.locate p) (.file content)) ∨
    (∃ e, r = .error e ∧ d' = d ∧
      (e = .nullCharacter → p.names.any (·.contains '\x00') = true)) := by
  unfold writeBytes at h
  rw [run_bind, run_ask] at h
  cases hf : d.follow p with
  | error e =>
    rw [hf] at h
    cases h
    exact .inr ⟨e, rfl, rfl, fun he => any_contains_of_follow (he ▸ hf)⟩
  | ok place =>
    rw [hf] at h
    cases place with
    | present l node =>
      obtain ⟨ho, rfl, hn⟩ := follow_eq_present_iff.mp hf
      cases node with
      | file old =>
        cases h
        exact .inl ⟨rfl, ho, by simp [hn], rfl⟩
      | directory =>
        cases h
        exact .inr ⟨_, rfl, rfl, by simp⟩
    | vacant l =>
      obtain ⟨_, _, -, -, ho, rfl, hn⟩ := follow_eq_vacant_iff.mp hf
      cases h
      exact .inl ⟨rfl, ho, by simp [hn], rfl⟩

theorem disk_emptyDirectory (p : Path) (d : Disk) : ((emptyDirectory p).run.run d).2 = d.emptied p := by
  unfold emptyDirectory emptied
  rw [run_bind, run_ask]
  match d.follow p with
  | .error e => rfl
  | .ok (.vacant l) => rfl
  | .ok (.present l .directory) => rfl
  | .ok (.present l (.file content)) => rfl

end DiskAction

end Inlay
