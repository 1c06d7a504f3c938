import Provision.Blob.Directory
import Provision.Proofs.Blob.Key
import Provision.Proofs.Files.Change
/-!
# Blobs in a directory — writing

What `put` does to the tree when nothing is in its way. The texts that stand
for the directories on the way lead where they should, although they are
written anew from the components of the path (`exists_leads`); so there are
**directories all the way** afterwards (`makeDirectories_made`), and the file
beside the blob's place is created, filled and moved (`write_broken`,
`write_whole`).
-/

namespace Provision.Blob.Directory

open Files Files.Tree Files.Path

variable {t : Tree} {b : Place} {path s : String} {front names dirs : List String}
variable {C : List Component}

variable {k : String}

/-! ## The paths of keys -/

theorem pathOf_of_isValid (d : Directory) (h : Key.isValid k = true) :
    d.pathOf k = .ok (join d.base k) := by
  rw [pathOf, Key.check_of_isValid h]
  rfl

theorem pathOf_of_not_isValid (d : Directory) (h : Key.isValid k = false) :
    d.pathOf k = .error (.invalidKey k) := by
  rw [pathOf, Key.check_of_not_isValid h]
  rfl

/-- The path of a key ends in a name. -/
theorem exists_segments_join (d : Directory) (hvalid : Key.isValid k = true) :
    ∃ front s, segments (join d.base k) = front ++ [s] ∧ step? s = some (.named s) := by
  obtain ⟨-, names, hseg, -⟩ := segments_join d.base (Key.not_isAbsolute_of_isValid hvalid)
  obtain ⟨dirs, s, hkey⟩ := exists_segments k
  have hs : s ∈ segments k := hkey ▸ List.mem_append_right _ (List.mem_singleton_self s)
  refine ⟨names ++ dirs, s, ?_, Key.step?_of_mem_segments hvalid hs⟩
  rw [hseg, hkey, List.append_assoc]

theorem join_ne_empty (d : Directory) (hvalid : Key.isValid k = true) :
    join d.base k ≠ "" := by
  intro hempty
  obtain ⟨front, s, hseg, hs⟩ := exists_segments_join d hvalid
  rw [hempty] at hseg
  have hlast := congrArg List.getLast? hseg
  rw [List.getLast?_concat] at hlast
  obtain rfl : "" = s := Option.some.inj hlast
  exact absurd hs (by decide)

/-! ## The texts of directories -/

theorem name_of_step? {c : Component} (h : step? s = some c) : render.name c = s := by
  rw [step?] at h
  split at h
  · cases h
  · split at h
    · next hup =>
      obtain rfl := Option.some.inj h
      exact hup.symm
    · obtain rfl := Option.some.inj h
      rfl

theorem map_name_filterMap (names : List String) :
    (names.filterMap step?).map render.name = steps names := by
  induction names with
  | nil => rfl
  | cons s rest ih =>
    cases hs : step? s with
    | none => rw [List.filterMap_cons_none hs, ih, steps_cons_of_none hs]
    | some c =>
      rw [List.filterMap_cons_some hs, List.map_cons, ih, name_of_step? hs, steps_cons_of_some hs]

theorem filterMap_named (h : ∀ s ∈ names, step? s = some (.named s)) :
    names.filterMap step? = names.map .named := by
  induction names with
  | nil => rfl
  | cons s rest ih =>
    rw [List.filterMap_cons_some (h s List.mem_cons_self),
      ih fun s hs => h s (List.mem_cons_of_mem _ hs)]
    rfl

theorem map_name_named (names : List String) :
    (names.map Component.named).map render.name = names := by
  rw [List.map_map]
  exact List.map_id names

/-- The components of a path that goes on by names. -/
theorem filterMap_segments (h : segments path = front ++ names)
    (hnamed : ∀ s ∈ names, step? s = some (.named s)) :
    (segments path).filterMap step? = front.filterMap step? ++ names.map .named := by
  rw [h, List.filterMap_append, filterMap_named hnamed]

/-- What a path written anew has in common with the path it comes from. -/
structure Renders (path text : String) (front ds : List String) : Prop where
  absolute : isAbsolute text = isAbsolute path
  segments : ∃ front', Path.segments text = front' ++ ds ∧ steps front' = steps front
  nonempty : text ≠ ""
  shorter : text = "/" ∨ (Path.segments text).Sublist (Path.segments path)

theorem render_of_notMem {cs : List Component} (h : .root ∉ cs) :
    render cs = "/".intercalate (cs.map render.name) := by
  cases cs with
  | nil => rfl
  | cons c cs =>
    cases c with
    | root => exact absurd List.mem_cons_self h
    | here => rfl
    | parent => rfl
    | named s => rfl

/-- No segment stands for the root. -/
theorem root_notMem_filterMap (names : List String) : .root ∉ names.filterMap step? := by
  intro hroot
  obtain ⟨s, -, hs⟩ := List.mem_filterMap.1 hroot
  rw [step?] at hs
  split at hs
  · cases hs
  · split at hs <;> cases hs

theorem renders_of_intercalate {lead ds : List String} (h : segments path = front ++ names)
    (hlead : steps lead = []) (hsub : (lead ++ steps front).Sublist front) (hds : ds <+: names)
    (hnil : lead ++ steps front ++ ds ≠ []) (hne : lead ++ steps front ++ ds ≠ [""])
    (habs : isAbsolute ("/".intercalate (lead ++ steps front ++ ds)) = isAbsolute path) :
    Renders path ("/".intercalate (lead ++ steps front ++ ds)) front ds := by
  have hshorter : (lead ++ steps front ++ ds).Sublist (segments path) :=
    h ▸ hsub.append hds.sublist
  have hseg : segments ("/".intercalate (lead ++ steps front ++ ds)) = lead ++ steps front ++ ds :=
    segments_intercalate hnil fun s hs => slash_notMem (hshorter.subset hs)
  refine ⟨habs, ⟨lead ++ steps front, hseg, ?_⟩, fun hempty => ?_, Or.inr (hseg.symm ▸ hshorter)⟩
  · rw [steps_append, hlead, steps_steps, List.nil_append]
  · rw [hempty] at hseg
    exact hne hseg.symm

/-- A text whose first segment is not empty is no absolute path. -/
theorem isAbsolute_intercalate_of_ne {names : List String} (hnil : names ≠ [])
    (hslash : ∀ s ∈ names, '/' ∉ s.toList) (hne : names.head? ≠ some "") :
    isAbsolute ("/".intercalate names) = false := by
  rw [Bool.eq_false_iff]
  intro habs
  obtain ⟨rest, -, hrest⟩ := segments_of_isAbsolute habs
  rw [segments_intercalate hnil hslash] at hrest
  exact hne (by rw [hrest]; rfl)

theorem map_name_append (front ds : List String) :
    (front.filterMap step? ++ ds.map Component.named).map render.name = steps front ++ ds := by
  rw [List.map_append, map_name_filterMap, map_name_named]

theorem root_notMem_append (front ds : List String) :
    .root ∉ front.filterMap step? ++ ds.map Component.named := by
  intro hmem
  obtain hmem | hmem := List.mem_append.1 hmem
  · exact root_notMem_filterMap front hmem
  · obtain ⟨s, -, hs⟩ := List.mem_map.1 hmem
    cases hs

/-- What a path begins with and what is no name stands in front. -/
theorem cons_steps_sublist {a : String} (ha : step? a = none)
    (hhead : (front ++ names).head? = some a) (hnames : a ∉ names) :
    ([a] ++ steps front).Sublist front := by
  cases front with
  | nil => exact absurd (List.mem_of_head? hhead) hnames
  | cons a' front =>
    obtain rfl : a' = a := Option.some.inj hhead
    rw [steps_cons_of_none ha]
    exact (List.filter_sublist).cons_cons _

section

variable {ds : List String} (h : segments path = front ++ names) (hds : ds <+: names)
include h hds

/-- The text of a directory on an absolute path. -/
theorem renders_root (hempty : "" ∉ names) (habs : isAbsolute path = true) :
    Renders path (render (.root :: front.filterMap step? ++ ds.map .named)) front ds := by
  have hrender : render (.root :: front.filterMap step? ++ ds.map .named) =
      "/" ++ "/".intercalate (steps front ++ ds) := by
    rw [List.cons_append, render, map_name_append]
  rw [hrender]
  by_cases hnil : steps front ++ ds = []
  · obtain ⟨hfront, rfl⟩ := List.append_eq_nil_iff.1 hnil
    rw [hfront]
    exact ⟨habs.symm, ⟨["", ""], rfl, hfront.symm⟩, by decide, Or.inl rfl⟩
  have hlead : "/" ++ "/".intercalate (steps front ++ ds) =
      "/".intercalate ([""] ++ steps front ++ ds) := by
    rw [List.append_assoc, List.singleton_append, String.intercalate_cons_of_ne_nil hnil]
    rfl
  obtain ⟨rest, -, hrest⟩ := segments_of_isAbsolute habs
  have hsub : ([""] ++ steps front).Sublist front :=
    cons_steps_sublist rfl (by rw [← h, hrest]; rfl) hempty
  have habs' := isAbsolute_append (a := "/") (by decide) ("/".intercalate (steps front ++ ds))
  rw [hlead] at habs' ⊢
  refine renders_of_intercalate h rfl hsub hds (by simp) ?_ (habs'.trans habs.symm)
  rw [List.append_assoc]
  intro hcontra
  exact hnil (List.cons.inj hcontra).2

/-- The text of a directory on a path that begins with a dot. -/
theorem renders_here (hdot : "." ∉ names) (hrel : isAbsolute path = false)
    (hhead : (segments path).head? = some ".") :
    Renders path (render (.here :: front.filterMap step? ++ ds.map .named)) front ds := by
  have hrender : render (.here :: front.filterMap step? ++ ds.map .named) =
      "/".intercalate (["."] ++ steps front ++ ds) := by
    rw [List.cons_append, render_of_notMem (by simpa using root_notMem_append front ds),
      List.map_cons, map_name_append]
    rfl
  have hsub : (["."] ++ steps front).Sublist front :=
    cons_steps_sublist rfl (h ▸ hhead) hdot
  rw [hrender]
  refine renders_of_intercalate h rfl hsub hds (by simp) (by simp) ?_
  rw [hrel]
  refine isAbsolute_intercalate_of_ne (by simp) (fun s hs => ?_) (by simp)
  exact slash_notMem (h ▸ (hsub.append hds.sublist).subset hs)

/-- The text of a directory on a path that begins with a name. -/
theorem renders_plain (hempty : "" ∉ names) (hrel : isAbsolute path = false)
    (hC : front.filterMap step? ++ ds.map Component.named ≠ []) :
    Renders path (render (front.filterMap step? ++ ds.map .named)) front ds := by
  have hrender : render (front.filterMap step? ++ ds.map .named) =
      "/".intercalate ([] ++ steps front ++ ds) := by
    rw [render_of_notMem (root_notMem_append front ds), map_name_append]
    rfl
  have hsub : ([] ++ steps front).Sublist front := List.filter_sublist
  have hno : "" ∉ [] ++ steps front ++ ds := by
    intro hs
    obtain hs | hs := List.mem_append.1 hs
    · exact ne_empty_of_mem_steps hs rfl
    · exact hempty (hds.subset hs)
  have hnil : [] ++ steps front ++ ds ≠ [] := by
    rw [List.nil_append, ← map_name_append front ds]
    exact fun hcontra => hC (List.map_eq_nil_iff.1 hcontra)
  rw [hrender]
  refine renders_of_intercalate h rfl hsub hds hnil (fun hcontra => ?_) ?_
  · exact hno (hcontra ▸ List.mem_singleton_self _)
  · rw [hrel]
    refine isAbsolute_intercalate_of_ne hnil (fun s hs => ?_) fun hhead => ?_
    · exact slash_notMem (h ▸ (hsub.append hds.sublist).subset hs)
    · exact hno (List.mem_of_head? hhead)

end

/-- **The directories on the way to a path, written anew.** -/
theorem exists_renders (h : segments path = front ++ names)
    (hnamed : ∀ s ∈ names, step? s = some (.named s)) :
    ∃ C, components path = C ++ names.map .named ∧ ∀ ds, ds <+: names →
      C ++ ds.map .named ≠ [] → Renders path (render (C ++ ds.map .named)) front ds := by
  have hempty : "" ∉ names := fun hs => absurd (hnamed _ hs) (by decide)
  have hdot : "." ∉ names := fun hs => absurd (hnamed _ hs) (by decide)
  rw [components, filterMap_segments h hnamed]
  split
  · next habs => exact ⟨_, rfl, fun ds hds _ => renders_root h hds hempty habs⟩
  next hrel =>
  rw [Bool.not_eq_true] at hrel
  split
  · next hhead => exact ⟨_, rfl, fun ds hds _ => renders_here h hds hdot hrel hhead⟩
  · exact ⟨_, rfl, fun ds hds hC => renders_plain h hds hempty hrel hC⟩

/-! ## Where they lead -/

theorem Renders.check {text : String} {ds : List String} (h : Renders path text front ds)
    (hpath : Tree.check path = .ok ()) : Tree.check text = .ok () := by
  obtain rfl | hsub := h.shorter
  · decide
  obtain ⟨hnul, -, hsize⟩ := check_iff.1 hpath
  refine check_iff.2 ⟨fun hmem => ?_, h.nonempty, ?_⟩
  · rw [← intercalate_segments text] at hmem
    obtain hslash | ⟨s, hs, hc⟩ := mem_intercalate hmem
    · exact absurd hslash (by decide)
    · exact hnul (mem_of_mem_segments (hsub.subset hs) hc)
  · have hle := size_intercalate_le hsub
    rw [intercalate_segments, intercalate_segments] at hle
    exact Nat.lt_of_le_of_lt hle hsize

/-- **They lead to the directories on the way.** -/
theorem exists_leads (h : t.Leads path b names) (hb : t.node? b = some .directory)
    (hnamed : ∀ s ∈ names, step? s = some (.named s)) :
    ∃ C, components path = C ++ names.map .named ∧ ∀ ds, ds <+: names →
      C ++ ds.map .named ≠ [] → t.Leads (render (C ++ ds.map .named)) b ds := by
  obtain ⟨front, hseg, hw⟩ := h.segments
  obtain ⟨C, hC, hrenders⟩ := exists_renders hseg hnamed
  refine ⟨C, hC, fun ds hds hcs => ?_⟩
  have hr := hrenders ds hds hcs
  obtain ⟨front', hseg', hsteps⟩ := hr.segments
  refine ⟨hr.check h.check, front', hseg', ?_⟩
  rw [Tree.start, hr.absolute]
  exact walk_congr hb hsteps.symm hw

/-! ## Making directories -/

/-- Where there is a directory, none has to be made. -/
theorem settled_of_locate {p : Place} {e : Files.Error} (h : t.locate path = .ok p)
    (hdir : t.node? p = some .directory) : settled t path e = .ok () := by
  rw [settled, isDirectory, h]
  simp only [isDirectoryAt, hdir, decide_true, if_true]

/-- The base is there already, so no directory is made for it. -/
theorem makeDirectories_base {cs : List Component} (hb : t.node? b = some .directory)
    (hleads : cs ≠ [] → t.Leads (render cs) b []) :
    makeDirectories t cs.reverse = ⟨[], .ok ()⟩ := by
  cases hcs : cs.reverse with
  | nil => rfl
  | cons c rest =>
    obtain rfl : cs = (c :: rest).reverse := by rw [← hcs, List.reverse_reverse]
    have hlocate : t.locate (render (c :: rest).reverse) = .ok b := by
      rw [(hleads (by simp)).locate, Tree.walk]
    have hcan : t.canMakeDirectory (render (c :: rest).reverse) = .error .alreadyThere := by
      rw [Tree.canMakeDirectory, hlocate]
      rfl
    simp only [makeDirectories, hcan, settled_of_locate hlocate hb]

/-- **There are directories all the way afterwards**, whatever part of the
way was there before. -/
theorem makeDirectories_made
    (hleads : ∀ ds, ds <+: dirs → C ++ ds.map .named ≠ [] →
      t.Leads (render (C ++ ds.map .named)) b ds)
    (hp : t.Passable b (dirs ++ [s])) :
    let made := makeDirectories t (C ++ dirs.map Component.named).reverse
    made.verdict = .ok () ∧ t.Made b dirs (t.performAll made.actions) := by
  induction dirs using List.reverseRecOn generalizing s with
  | nil =>
    have hbase : t.Passable b [] := hp.of_append
    have hmade : t.Made b [] t := by
      refine .refl hp.closed fun ds hds => ?_
      obtain rfl := List.prefix_nil.1 hds
      rw [List.append_nil, hp.base]
    rw [List.map_nil, List.append_nil, makeDirectories_base hbase.base fun hne => ?_]
    · exact ⟨rfl, hmade⟩
    · have hway := hleads [] (List.prefix_refl _) (by simpa using hne)
      rwa [List.map_nil, List.append_nil] at hway
  | append_singleton dirs s' ih =>
    have hway : t.Passable b (dirs ++ [s']) := hp.of_append
    have hleads' := hleads (dirs ++ [s']) (List.prefix_refl _) (by simp)
    have hcan := hleads'.canMakeDirectory hway
    have hreverse : (C ++ (dirs ++ [s']).map Component.named).reverse =
        .named s' :: (C ++ dirs.map Component.named).reverse := by simp
    have htext : (Component.named s' :: (C ++ dirs.map Component.named).reverse).reverse =
        C ++ (dirs ++ [s']).map Component.named := by simp
    rw [hreverse]
    simp only [makeDirectories, htext]
    by_cases hthere : (t.node? (b ++ (dirs ++ [s']))).isSome = true
    · have hall : ∀ ds, ds <+: dirs ++ [s'] → t.node? (b ++ ds) = some .directory :=
        fun _ hds => hp.isDirectory_of_isPrefix hthere hds
      have hlocate := hleads'.locate_eq hway
      rw [if_pos hthere] at hlocate
      rw [hcan, if_pos hthere]
      exact ⟨settled_of_locate hlocate (hall _ (List.prefix_refl _)), .refl hp.closed hall⟩
    have hnone : t.node? (b ++ dirs ++ [s']) = none := by
      rw [List.append_assoc]
      exact Option.not_isSome_iff_eq_none.1 hthere
    rw [hcan, if_neg hthere]
    by_cases habove : (t.node? (b ++ dirs)).isSome = true
    · rw [if_pos habove, ← List.append_assoc]
      have hmade : t.Made b dirs t :=
        .refl hp.closed fun ds hds => hway.isDirectory_of_isPrefix habove hds
      exact ⟨rfl, hmade.concat (by rw [hnone]; simp) (replaced_insert t (by simp) _)⟩
    · rw [if_neg habove]
      obtain ⟨hverdict, hmade⟩ :=
        ih (fun ds hds => hleads ds (hds.trans (List.prefix_append _ _))) hway
      generalize makeDirectories t (C ++ dirs.map Component.named).reverse = above at hverdict hmade
      have hnone' : (t.performAll above.actions).node? (b ++ dirs ++ [s']) = none := by
        rw [List.append_assoc, hmade.other_below (not_isPrefix_concat dirs s'), ← List.append_assoc,
          hnone]
      have hcan' : (t.performAll above.actions).canMakeDirectory
          (render (C ++ (dirs ++ [s']).map .named)) = .ok (b ++ dirs ++ [s']) := by
        rw [(hleads'.kept hp.base hmade.kept).canMakeDirectory (hmade.passable hway),
          hmade.directory dirs (List.prefix_refl _), ← List.append_assoc, hnone']
        rfl
      simp only [hverdict, hcan', performAll_append]
      exact ⟨trivial, hmade.concat (by rw [hnone']; simp) (replaced_insert _ (by simp) _)⟩

/-! ## Writing a file -/

/-- **Ready for a blob**: its directory is there, and no directory stands in
its place or in the one beside it. -/
structure Ready (t : Tree) (path : String) (b : Place) (dirs : List String) (s : String) :
    Prop where
  leads : t.Leads path b (dirs ++ [s])
  beside : t.Leads (partialPath path) b (dirs ++ [partialPath s])
  passable : t.Passable b (dirs ++ [s])
  fits : Fits (partialPath s)
  directory : t.node? (b ++ dirs) = some .directory
  free : t.node? (b ++ dirs ++ [s]) ≠ some .directory
  freeBeside : t.node? (b ++ dirs ++ [partialPath s]) ≠ some .directory

/-- The text of the place beside is longer by its suffix. -/
theorem segments_partialPath (h : segments path = dirs ++ [s]) :
    segments (partialPath path) = dirs ++ [partialPath s] :=
  segments_append (by decide) h

/-- It ends in a name, whatever it is beside. -/
theorem step?_partialPath (s : String) : step? (partialPath s) = some (.named (partialPath s)) := by
  have hlong : ∀ s' : String, s'.toList.length < 8 → partialPath s ≠ s' := by
    rintro s' hlt rfl
    have hsuffix : ".partial".toList.length = 8 := by decide
    rw [partialPath, String.toList_append, List.length_append] at hlt
    omega
  rw [step?, if_neg, if_neg (hlong ".." (by decide))]
  simp [hlong "" (by decide), hlong "." (by decide)]

theorem partialPath_ne (s : String) : partialPath s ≠ s := by
  intro h
  have hlen := congrArg (fun s : String => s.toList.length) h
  simp [partialPath] at hlen

variable {data : Stream}

theorem Ready.canCreate_beside (h : Ready t path b dirs s) :
    t.canCreate (partialPath path) = .ok (b ++ dirs ++ [partialPath s]) := by
  rw [List.append_assoc]
  refine h.beside.canCreate (h.passable.beside h.fits) h.directory ?_
  rw [← List.append_assoc]
  exact h.freeBeside

/-- **A stream that breaks off leaves the file beside**, with what has
arrived, and nothing else. -/
theorem write_broken (h : Ready t path b dirs s) {e : Error} (hdata : data.failure = some e) :
    let wrote := write t path data
    wrote.verdict = .error e ∧
      t.Replaced (b ++ dirs ++ [partialPath s]) (some (.file data.chunks.flatten))
        (t.performAll wrote.actions) := by
  simp only [write, h.canCreate_beside, hdata]
  exact ⟨trivial, performAll_create t (by simp) data.chunks⟩

/-- **A whole stream becomes the blob**, and nothing is left beside. -/
theorem write_whole (h : Ready t path b dirs s) (hdata : data.failure = none) :
    let wrote := write t path data
    wrote.verdict = .ok () ∧ ∃ t₁, t.Replaced (b ++ dirs ++ [partialPath s]) none t₁ ∧
      t₁.Replaced (b ++ dirs ++ [s]) (some (.file data.chunks.flatten))
        (t.performAll wrote.actions) := by
  let beside : Place := b ++ dirs ++ [partialPath s]
  let written : List Tree.Action :=
    .create beside :: data.chunks.map (.append beside) ++ [.sync beside]
  have hwritten : t.Replaced beside (some (.file data.chunks.flatten)) (t.performAll written) := by
    rw [performAll_append]
    exact performAll_create t (by simp [beside]) data.chunks
  have hkeeps := hwritten.keeps h.freeBeside
  have hfree : (t.performAll written).node? (b ++ dirs ++ [s]) ≠ some .directory := by
    rw [hwritten.other fun heq => ?_]
    · exact h.free
    · exact partialPath_ne s (List.singleton_inj.1 (List.append_cancel_left heq))
  have hcan : (t.performAll written).canCreate path = .ok (b ++ dirs ++ [s]) := by
    rw [List.append_assoc]
    refine (h.leads.kept h.passable.base hkeeps).canCreate
      (h.passable.replaced hwritten h.directory h.freeBeside) (hkeeps.directory _ h.directory) ?_
    rw [← List.append_assoc]
    exact hfree
  obtain ⟨t₁, herased, hmoved⟩ :=
    perform_rename (q := b ++ dirs ++ [s]) (by simp [beside]) (by simp) hwritten.self
  simp only [write, h.canCreate_beside, hdata]
  rw [show Tree.Action.create (b ++ dirs ++ [partialPath s]) :: _ ++ _ = written from rfl, hcan]
  refine ⟨rfl, t₁, hwritten.trans herased, ?_⟩
  rw [performAll_append]
  exact hmoved

/-! ## Putting -/

/-- **A blob is put by making the directories on its way and writing it.** -/
theorem put_eq {d : Directory} (hvalid : Key.isValid k = true)
    (hleads : t.Leads (join d.base k) b (dirs ++ [s])) (hp : t.Passable b (dirs ++ [s]))
    (data : Stream) :
    ∃ above : List Tree.Action, t.Made b dirs (t.performAll above) ∧
      let wrote := write (t.performAll above) (join d.base k) data
      d.put t k data = ⟨above ++ wrote.actions, wrote.verdict⟩ := by
  obtain ⟨C, hC, hway⟩ :=
    exists_leads hleads hp.base fun s' hs' => (hp.fits s' hs').named
  obtain ⟨hverdict, hmade⟩ :=
    makeDirectories_made (fun ds hds => hway ds (hds.trans (List.prefix_append _ _))) hp
  have hparents : (components (join d.base k)).reverse.tail =
      (C ++ dirs.map Component.named).reverse := by
    rw [hC]
    simp
  refine ⟨_, hmade, ?_⟩
  rw [put, pathOf_of_isValid d hvalid]
  simp only [hparents, hverdict]

/-- **A name that leaves no room for `.partial` cannot be written**, short as
it is. -/
theorem put_of_long {d : Directory} (hvalid : Key.isValid k = true)
    (hleads : t.Leads (join d.base k) b (dirs ++ [s]))
    (hbeside : t.Leads (partialPath (join d.base k)) b (dirs ++ [partialPath s]))
    (hp : t.Passable b (dirs ++ [s])) (hlong : nameLimit < Utf8.size (partialPath s))
    (data : Stream) :
    (d.put t k data).verdict = .error (.io (.system .nameTooLong)) := by
  obtain ⟨above, hmade, hput⟩ := put_eq hvalid hleads hp data
  have hcan : (t.performAll above).canCreate (partialPath (join d.base k)) =
      .error .nameTooLong := by
    rw [canCreate, (hbeside.kept hp.base hmade.kept).locateNew_of_long (hmade.passable hp).of_append
      (hmade.directory dirs (List.prefix_refl _)) hlong]
    rfl
  rw [hput]
  simp only [write, hcan]

/-- A path that is too long leads nowhere. -/
theorem has_of_long {d : Directory} (t : Tree) (hvalid : Key.isValid k = true)
    (hnul : '\x00' ∉ (join d.base k).toList) (hlong : pathLimit ≤ Utf8.size (join d.base k)) :
    d.has t k = .error (.io (.system .nameTooLong)) := by
  rw [has, pathOf_of_isValid d hvalid]
  simp only [bind, Except.bind, locate, check_of_long hnul hlong]
  rfl

end Provision.Blob.Directory
