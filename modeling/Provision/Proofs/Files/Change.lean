import Provision.Proofs.Files.Place
/-!
# Files — changing a tree

What actions do is told by what stands where afterwards. Most change one
place (`Replaced`); making directories changes the places on a way (`Made`).
Both leave a tree in order: whatever stands below a directory still stands in
a directory, and names that could be followed still can.
-/

namespace Provision.Files.Tree

variable {t t' t'' : Tree} {p q b : Place} {n n' : Option Node} {names dirs ds : List String}

/-! ## One place -/

/-- **One place has changed**: `n` stands at `q` now. -/
structure Replaced (t : Tree) (q : Place) (n : Option Node) (t' : Tree) : Prop where
  here : t'.here = t.here
  node : ∀ p, t'.node? p = if q = p then n else t.node? p

theorem Replaced.self (h : t.Replaced q n t') : t'.node? q = n := by
  rw [h.node, if_pos rfl]

theorem Replaced.other (h : t.Replaced q n t') (hne : q ≠ p) : t'.node? p = t.node? p := by
  rw [h.node, if_neg hne]

/-- The last change of a place counts. -/
theorem Replaced.trans (h : t.Replaced q n t') (h' : t'.Replaced q n' t'') :
    t.Replaced q n' t'' := by
  refine ⟨h'.here.trans h.here, fun p => ?_⟩
  rw [h'.node, h.node]
  split <;> rfl

/-- What is as it was has not changed. -/
theorem Replaced.refl (h : t.node? q = n) : t.Replaced q n t := by
  refine ⟨rfl, fun p => ?_⟩
  split
  · next heq => rw [← heq, h]
  · rfl

theorem node?_of_ne_nil (t : Tree) (hp : p ≠ []) : t.node? p = t.nodes.get? p := by
  rw [node?, if_neg hp]

theorem replaced_insert (t : Tree) (hq : q ≠ []) (n : Node) :
    t.Replaced q (some n) { t with nodes := t.nodes.insert q n } := by
  refine ⟨rfl, fun p => ?_⟩
  by_cases hp : p = []
  · subst hp
    rw [if_neg hq]
    rfl
  · rw [node?_of_ne_nil _ hp, node?_of_ne_nil _ hp, Table.get?_insert]

theorem replaced_erase (t : Tree) (hq : q ≠ []) :
    t.Replaced q none { t with nodes := t.nodes.erase q } := by
  refine ⟨rfl, fun p => ?_⟩
  by_cases hp : p = []
  · subst hp
    rw [if_neg hq]
    rfl
  · rw [node?_of_ne_nil _ hp, node?_of_ne_nil _ hp, Table.get?_erase]

/-- What is put where no directory stood leaves all directories. -/
theorem Replaced.keeps (h : t.Replaced q n t') (hq : t.node? q ≠ some .directory) :
    t.Keeps t' := by
  refine ⟨fun p hp => ?_, h.here⟩
  rw [h.other, hp]
  rintro rfl
  exact hq hp

/-! ## Actions -/

theorem performAll_append (t : Tree) (as as' : List Action) :
    t.performAll (as ++ as') = (t.performAll as).performAll as' :=
  List.foldl_append

theorem perform_append_of_file (hq : q ≠ []) {content bs : Bytes}
    (h : t.node? q = some (.file content)) :
    t.Replaced q (some (.file (content ++ bs))) (t.perform (.append q bs)) := by
  have hget : t.nodes.get? q = some (.file content) := node?_of_ne_nil t hq ▸ h
  rw [perform, hget]
  exact replaced_insert t hq _

/-- **Chunks gather in a file** in their order. -/
theorem performAll_appends (hq : q ≠ []) (chunks : List Bytes) {content : Bytes}
    (h : t.node? q = some (.file content)) :
    t.Replaced q (some (.file (content ++ chunks.flatten)))
      (t.performAll (chunks.map (.append q))) := by
  induction chunks generalizing t content with
  | nil =>
    rw [List.flatten_nil, List.append_nil]
    exact Replaced.refl h
  | cons bs chunks ih =>
    have hfirst : t.Replaced q (some (.file (content ++ bs))) (t.perform (.append q bs)) :=
      perform_append_of_file hq h
    have hrest := ih hfirst.self
    rw [List.append_assoc] at hrest
    exact hfirst.trans hrest

/-- A file that is created and written. -/
theorem performAll_create (t : Tree) (hq : q ≠ []) (chunks : List Bytes) :
    t.Replaced q (some (.file chunks.flatten))
      (t.performAll (.create q :: chunks.map (.append q))) := by
  have hcreate : t.Replaced q (some (.file [])) (t.perform (.create q)) :=
    replaced_insert t hq _
  exact hcreate.trans (performAll_appends hq chunks hcreate.self)

/-- **A move takes the file along**, and takes it away. -/
theorem perform_rename (hp : p ≠ []) (hq : q ≠ []) {content : Bytes}
    (h : t.node? p = some (.file content)) :
    ∃ t₁, t.Replaced p none t₁ ∧
      t₁.Replaced q (some (.file content)) (t.perform (.rename p q)) := by
  have hget : t.nodes.get? p = some (.file content) := node?_of_ne_nil t hp ▸ h
  refine ⟨_, replaced_erase t hp, ?_⟩
  rw [perform, hget]
  exact replaced_insert _ hq _

/-! ## Trees in order -/

/-- **A tree stays in order** when a place changes that holds no directory:
what comes there has to stand in one. -/
theorem ClosedBelow.of_replaced (h : t.ClosedBelow b) (hr : t.Replaced q n t')
    (hno : t.node? q ≠ some .directory)
    (hin : n.isSome → (t.node? q).isSome ∨ t.InDirectory q) : t'.ClosedBelow b := by
  intro ds s hsome
  have hold : t.node? (b ++ ds) = some .directory := by
    by_cases heq : q = b ++ ds ++ [s]
    · subst heq
      rw [hr.self] at hsome
      obtain hthere | ⟨dir, s', heq, hdir⟩ := hin hsome
      · exact h ds s hthere
      · rwa [List.append_inj_left' heq rfl]
    · rw [hr.other heq] at hsome
      exact h ds s hsome
  rw [hr.other, hold]
  rintro rfl
  exact hno hold

/-- What is put into a directory where no directory stood, leaves the tree
in order. -/
theorem ClosedBelow.replaced (h : t.ClosedBelow b) {s : String}
    (hr : t.Replaced (b ++ names ++ [s]) n t')
    (hdir : t.node? (b ++ names) = some .directory)
    (hno : t.node? (b ++ names ++ [s]) ≠ some .directory) : t'.ClosedBelow b :=
  h.of_replaced hr hno fun _ => Or.inr ⟨b ++ names, s, rfl, hdir⟩

/-- What changes beside a place leaves the way to it. -/
theorem Passable.replaced {s s' : String} (h : t.Passable b (names ++ [s]))
    (hr : t.Replaced (b ++ names ++ [s']) n t')
    (hdir : t.node? (b ++ names) = some .directory)
    (hno : t.node? (b ++ names ++ [s']) ≠ some .directory) : t'.Passable b (names ++ [s]) where
  base := (hr.keeps hno).directory b h.base
  closed := h.closed.replaced hr hdir hno
  fits := h.fits
  way ds s₁ rest heq c := by
    rw [hr.other fun heq' => ?_]
    · exact h.way ds s₁ rest heq c
    · -- the place is no part of the way, being longer
      rw [List.append_assoc] at heq'
      have hlen := congrArg List.length heq
      have hlen' := congrArg List.length (List.append_cancel_left heq')
      simp only [List.length_append, List.length_cons, List.length_nil] at hlen hlen'
      omega

/-! ## Directories on a way -/

/-- **What making directories comes to**: there are directories all the way
from `b` on, and all else is as it was. -/
structure Made (t : Tree) (b : Place) (dirs : List String) (t' : Tree) : Prop where
  kept : t.Keeps t'
  closed : t'.ClosedBelow b
  directory : ∀ ds, ds <+: dirs → t'.node? (b ++ ds) = some .directory
  other : ∀ p, (∀ ds, ds <+: dirs → p ≠ b ++ ds) → t'.node? p = t.node? p

theorem Made.refl (hclosed : t.ClosedBelow b)
    (hdirs : ∀ ds, ds <+: dirs → t.node? (b ++ ds) = some .directory) : t.Made b dirs t :=
  ⟨.refl t, hclosed, hdirs, fun _ _ => rfl⟩

/-- What is not on the way is as it was. -/
theorem Made.other_below (h : t.Made b dirs t') {p : Place} (hp : ¬ p <+: dirs) :
    t'.node? (b ++ p) = t.node? (b ++ p) :=
  h.other _ fun _ hds heq => hp (List.append_cancel_left heq ▸ hds)

/-- One more directory. -/
theorem Made.concat {s : String} (h : t.Made b dirs t')
    (hno : t'.node? (b ++ dirs ++ [s]) ≠ some .directory)
    (hr : t'.Replaced (b ++ dirs ++ [s]) (some .directory) t'') :
    t.Made b (dirs ++ [s]) t'' where
  kept := h.kept.trans (hr.keeps hno)
  closed := h.closed.replaced hr (h.directory dirs (List.prefix_refl dirs)) hno
  directory ds hds := by
    obtain rfl | hds := List.prefix_concat_iff.1 hds
    · rw [← List.append_assoc]
      exact hr.self
    · exact (hr.keeps hno).directory _ (h.directory ds hds)
  other p hp := by
    have hne : b ++ dirs ++ [s] ≠ p := by
      rintro rfl
      exact hp (dirs ++ [s]) (List.prefix_refl _) (List.append_assoc ..)
    rw [hr.other hne]
    exact h.other p fun ds hds => hp ds (hds.trans (List.prefix_append _ _))

theorem Made.passable (h : t.Made b dirs t') (hp : t.Passable b (dirs ++ names)) :
    t'.Passable b (dirs ++ names) where
  base := h.kept.directory _ hp.base
  closed := h.closed
  fits := hp.fits
  way ds s rest heq c hfile := by
    by_cases hds : ds <+: dirs
    · rw [h.directory ds hds] at hfile
      cases hfile
    · exact hp.way ds s rest heq c (h.other_below hds ▸ hfile)

end Provision.Files.Tree
