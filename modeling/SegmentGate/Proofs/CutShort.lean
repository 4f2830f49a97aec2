import SegmentGate.Proofs.Stores

/-!
# Saves that are cut short

A save may end at any point: one of its steps fails, or the process stops
between two steps or in the middle of a write. Whatever was in the directory
before, the snapshot file then holds what it held, or all of the new snapshot
(`save_keeps_or_replaces`).

Before the last step of a save no file is touched but the draft
(`Disk.Spares`), and the last step puts the complete draft in place of the
snapshot. The file is named by its place here. A path may lead through a
directory that the save has to make and out of it again; it then leads to a
file to which it did not lead before, and that file is untouched as well.
-/
namespace SegmentGate

variable {κ : Type}

namespace Path

theorem isName_append_tmp (name : String) : isName (name ++ ".tmp") = true := by
  have hne (s : String) (h : s.length < 4) : name ++ ".tmp" ≠ s := by
    rintro rfl
    rw [String.length_append] at h
    exact absurd h (Nat.not_lt.mpr (Nat.le_add_left _ _))
  simp [isName, leads, hne "" (by decide), hne "." (by decide), hne ".." (by decide)]

theorem append_tmp_ne (name : String) : name ++ ".tmp" ≠ name := by
  intro h
  have hlength := congrArg String.length h
  rw [String.length_append] at hlength
  exact absurd hlength (by simp)

/-- The path of a file is the way to its directory and a name. -/
theorem exists_of_endsInName {p : Path} (h : p.endsInName = true) :
    ∃ way name, p.pieces = way ++ [name] ∧ isName name = true := by
  unfold endsInName at h
  cases hlast : p.pieces.getLast? with
  | none => simp [hlast] at h
  | some name =>
    obtain ⟨way, hway⟩ := List.getLast?_eq_some_iff.mp hlast
    exact ⟨way, name, hway, by simpa [hlast] using h⟩

theorem leads_of_isName {piece : String} (h : isName piece = true) : leads piece = true := by
  unfold isName at h
  exact (Bool.and_eq_true_iff.mp h).1

theorem stops_concat (before way : List String) {name : String} (h : leads name = true) :
    stops before (way ++ [name]) = stops before way ++ [⟨before ++ way ++ [name]⟩] := by
  induction way generalizing before with
  | nil => simp [stops, h]
  | cons piece way ih =>
    rw [List.cons_append, stops, stops]
    split <;> simp [ih]

/-- A place on the way is reached by the first pieces, the last of which leads
there. -/
theorem mem_stops {q : Path} {before way : List String} (h : q ∈ stops before way) :
    ∃ first piece rest, way = first ++ piece :: rest ∧ q = ⟨before ++ first ++ [piece]⟩ ∧
      leads piece = true := by
  induction way generalizing before with
  | nil => cases h
  | cons piece way ih =>
    have hlater (hq : q ∈ stops (before ++ [piece]) way) :
        ∃ first last rest, piece :: way = first ++ last :: rest ∧
          q = ⟨before ++ first ++ [last]⟩ ∧ leads last = true := by
      obtain ⟨first, last, rest, hway, hq, hlast⟩ := ih hq
      have hway' : piece :: way = (piece :: first) ++ last :: rest := by
        rw [hway, List.cons_append]
      exact ⟨piece :: first, last, rest, hway', by simpa using hq, hlast⟩
    rw [stops] at h
    split at h
    · rename_i hpiece
      rcases List.mem_cons.mp h with rfl | h
      · exact ⟨[], piece, way, rfl, by simp, hpiece⟩
      · exact hlater h
    · exact hlater h

end Path

namespace Disk

variable {d d' d'' : Disk} {p : Path} {here : Place} {name : String}

/-! ## Where a path leads -/

theorem follow_append (d : Disk) (here : Place) (xs ys : List String) :
    d.follow here (xs ++ ys) = (d.follow here xs).bind fun there => d.follow there ys := by
  induction xs generalizing here with
  | nil => rfl
  | cons x xs ih =>
    rw [List.cons_append, follow, follow]
    split
    · split
      · rfl
      · exact ih _
    · rfl
    · rfl

/-- Only a directory is passed. -/
theorem directory_of_follow {there : Place} {piece : String} {rest : List String}
    (h : d.follow here (piece :: rest) = .ok there) : d.node? here = some .directory := by
  rw [follow] at h
  split at h
  · assumption
  · cases h
  · cases h

theorem getLast?_of_follow {there : Place} {way : List String} (hname : Path.isName name = true)
    (h : d.follow here (way ++ [name]) = .ok there) : there.getLast? = some name := by
  rw [follow_append] at h
  obtain ⟨last, -, h⟩ := ok_of_bind_ok h
  have hleads := Path.leads_of_isName hname
  have hup : name ≠ ".." := by
    rintro rfl
    exact absurd hname (by decide)
  rw [follow, directory_of_follow h] at h
  simp only [follow, enter, hup, if_false, hleads, if_true] at h
  split at h
  · cases h
  · obtain rfl := Except.ok.inj h
    exact List.getLast?_concat

/-- A path starts where the way to a place on it starts. -/
theorem start_append {p q : Path} {rest : List String} (hp : p.pieces = q.pieces ++ rest)
    (hq : q.endsInSlash = false) (hne : q.pieces ≠ []) :
    start p = ((start q).1, (start q).2 ++ rest) := by
  have habs : p.isAbsolute = q.isAbsolute := by
    unfold Path.endsInSlash at hq
    unfold Path.isAbsolute
    rw [hp]
    match hpieces : q.pieces with
    | [] => exact absurd hpieces hne
    | [piece] =>
      have hpiece : piece ≠ "" := by simpa [hpieces] using hq
      cases rest <;> simp [hpiece]
    | piece :: next :: way => by_cases hpiece : piece = "" <;> simp [hpiece]
  unfold start
  rw [habs, hp]
  split
  · rw [List.tail_append_of_ne_nil hne]
  · rfl

theorem locate_eq_follow (hl : d.locate p = .ok here) :
    d.follow (start p).1 (start p).2 = .ok here := by
  unfold locate at hl
  split at hl
  · cases hl
  · exact hl

theorem getLast?_of_locate {way : List String} (hp : p.pieces = way ++ [name])
    (hname : Path.isName name = true) (hl : d.locate p = .ok here) :
    here.getLast? = some name := by
  have h := locate_eq_follow hl
  have hway : ∃ way, (start p).2 = way ++ [name] := by
    unfold start
    split
    · rename_i habs
      cases way with
      | nil => simp [Path.isAbsolute, hp] at habs
      | cons piece way => exact ⟨way, by simp [hp]⟩
    · exact ⟨way, hp⟩
  obtain ⟨way, hway⟩ := hway
  rw [hway] at h
  exact getLast?_of_follow hname h

/-- Where a path leads somewhere, the directories on the way are there. -/
theorem makeDirectory_of_locate {q : Path} {piece : String} {rest : List String}
    (hl : d.locate p = .ok here) (hp : p.pieces = q.pieces ++ piece :: rest)
    (hq : q.endsInSlash = false) (hne : q.pieces ≠ []) (h : d.makeDirectory q = .ok d') :
    d' = d := by
  obtain ⟨there, hthere, h⟩ := ok_of_bind_ok h
  rw [locateNew_eq_locate hq] at hthere
  have hfollow := locate_eq_follow hl
  rw [start_append hp hq hne, follow_append, locate_eq_follow hthere] at hfollow
  rw [directory_of_follow hfollow] at h
  exact (Except.ok.inj h).symm

/-! ## Steps that are cut short -/

/-- What has come of a step that was cut short: the first `n` bytes of a write,
and nothing of any other step. -/
def takePart (d : Disk) (n : Nat) : Step → Disk
  | .append p bytes =>
    match d.append p (bytes.extract 0 n) with
    | .ok d' => d'
    | .error _ => d
  | _ => d

/-- The steps are cut short: `k` of them are taken, and the next one in part. A
step that fails ends them before. -/
def cutShort (d : Disk) : List Step → Nat → Nat → Disk
  | [], _, _ => d
  | s :: _, 0, n => d.takePart n s
  | s :: rest, k + 1, n =>
    match d.step s with
    | .ok d' => d'.cutShort rest k n
    | .error _ => d

/-- Steps that fail by themselves are cut short there. -/
theorem run_eq_cutShort (d : Disk) (n : Nat) (steps : List Step) :
    (d.run steps).1 = d.cutShort steps steps.length n := by
  induction steps generalizing d with
  | nil => rfl
  | cons s rest ih =>
    simp only [run, List.length_cons, cutShort]
    cases d.step s with
    | ok d' => exact ih d'
    | error e => rfl

/-- The last step of all comes about or it does not. -/
theorem cutShort_concat {s : Step} (hs : ∀ d n, takePart d n s = d) (d : Disk) (k n : Nat)
    (steps : List Step) :
    d.cutShort (steps ++ [s]) k n = d.cutShort steps k n ∨
      d.run (steps ++ [s]) = (d.cutShort (steps ++ [s]) k n, none) := by
  induction steps generalizing d k with
  | nil =>
    cases k with
    | zero => exact .inl (hs d n)
    | succ k =>
      simp only [List.nil_append, cutShort, run]
      cases d.step s with
      | ok d' => exact .inr rfl
      | error e => exact .inl rfl
  | cons x steps ih =>
    cases k with
    | zero => exact .inl rfl
    | succ k =>
      simp only [List.cons_append, cutShort, run]
      cases d.step x with
      | ok d' => exact ih d' k
      | error e => exact .inl rfl

/-! ## What is left alone -/

/-- The content of the file at a place, if there is one. -/
def file? (d : Disk) (here : Place) : Option ByteArray :=
  match d.node? here with
  | some (.file bytes) => some bytes
  | _ => none

/-- No directory is gone, no file is touched but those of the name `draft`, and
what the path `p` led to is as it was. -/
structure Spares (p : Path) (draft : String) (d d' : Disk) : Prop where
  directories : KeepsDirectories d d'
  files : ∀ here, here.getLast? ≠ some draft → d'.file? here = d.file? here
  target : ∀ here, d.locate p = .ok here → d'.node? here = d.node? here

namespace Spares

variable {draft : String}

theorem refl (d : Disk) : Spares p draft d d := ⟨fun _ h => h, fun _ _ => rfl, fun _ _ => rfl⟩

theorem trans (h : Spares p draft d d') (h' : Spares p draft d' d'') : Spares p draft d d'' where
  directories here hd := h'.directories here (h.directories here hd)
  files here hh := (h'.files here hh).trans (h.files here hh)
  target here hl :=
    (h'.target here (locate_of_keepsDirectories h.directories hl)).trans (h.target here hl)

/-- Where the path led before, it is read as before. -/
theorem read_eq (h : Spares p draft d d') (hl : d.locate p = .ok here) :
    d'.read p = d.read p := by
  have hl' := locate_of_keepsDirectories h.directories hl
  simp only [read, hl, hl', bind, Except.bind, h.target here hl]

/-- A file of that name changes. -/
theorem set {way : List String} (hp : p.pieces = way ++ [name]) (hname : Path.isName name = true)
    (hne : draft ≠ name) (hhere : here.getLast? = some draft)
    (hn : d.node? here ≠ some .directory) (bytes : ByteArray) :
    Spares p draft d (d.set here (.file bytes)) where
  directories := keepsDirectories_set hn _
  files q hq := by
    rw [file?, node?_set hn, if_neg, file?]
    rintro rfl
    exact hq hhere
  target q hq := by
    rw [node?_set hn, if_neg]
    rintro rfl
    rw [getLast?_of_locate hp hname hq] at hhere
    exact hne (Option.some.inj hhere).symm

/-- A directory is made on the way. -/
theorem makeDirectory {q : Path} {piece : String} {rest : List String}
    (hp : p.pieces = q.pieces ++ piece :: rest) (hq : q.endsInSlash = false) (hne : q.pieces ≠ [])
    (h : d.makeDirectory q = .ok d') : Spares p draft d d' := by
  have htarget (here : Place) (hl : d.locate p = .ok here) : d'.node? here = d.node? here := by
    rw [makeDirectory_of_locate hl hp hq hne h]
  obtain ⟨there, -, h⟩ := ok_of_bind_ok h
  split at h
  · cases h
    exact refl d
  · cases h
  · rename_i hnone
    cases h
    have hn : d.node? there ≠ some .directory := by simp [hnone]
    refine ⟨keepsDirectories_set hn _, fun here _ => ?_, htarget⟩
    by_cases hhere : here = there
    · simp [file?, node?_set hn, hhere, hnone]
    · simp [file?, node?_set hn, hhere]

end Spares

/-- A step that spares all files but those of the name `draft`, whole or in
part. -/
def Step.Spares (p : Path) (draft : String) (s : Step) : Prop :=
  ∀ d, (∀ d', d.step s = .ok d' → Disk.Spares p draft d d') ∧
    ∀ n, Disk.Spares p draft d (d.takePart n s)

theorem spares_cutShort {draft : String} {steps : List Step}
    (h : ∀ s ∈ steps, s.Spares p draft) (d : Disk) (k n : Nat) :
    Spares p draft d (d.cutShort steps k n) := by
  induction steps generalizing d k with
  | nil => exact .refl d
  | cons s rest ih =>
    obtain ⟨hstep, hpart⟩ := h s List.mem_cons_self d
    cases k with
    | zero => exact hpart n
    | succ k =>
      simp only [cutShort]
      cases hs : d.step s with
      | ok d' => exact (hstep d' hs).trans (ih (fun s hs => h s (List.mem_cons_of_mem _ hs)) d' k)
      | error e => exact .refl d

/-- The directories that are made for a file are on the way to it. -/
theorem spares_of_mem_makeParent {way : List String} (hp : p.pieces = way ++ [name])
    (hname : Path.isName name = true) (draft : String) {s : Step} (hs : s ∈ makeParent p) :
    s.Spares p draft := by
  have hparents : p.parents = Path.stops [] way := by
    rw [Path.parents, hp, Path.stops_concat [] way (Path.leads_of_isName hname),
      List.dropLast_concat]
  have hmake {q : Path} {first rest : List String} {piece : String}
      (hway : way = first ++ piece :: rest) (hq : q = ⟨[] ++ first ++ [piece]⟩)
      (hpiece : Path.leads piece = true) : (Step.makeDirectory q).Spares p draft := by
    have hslash : q.endsInSlash = false := by
      rw [hq, Path.endsInSlash, List.getLast?_concat]
      simp only [Path.leads, Bool.and_eq_true, bne_iff_ne] at hpiece
      simpa using hpiece.1
    refine fun d => ⟨fun d' h => ?_, fun n => .refl d⟩
    cases hrest : rest ++ [name] with
    | nil => simp at hrest
    | cons next rest' =>
      have hp' : p.pieces = q.pieces ++ next :: rest' := by
        rw [hp, hway, hq, ← hrest]
        simp
      exact Spares.makeDirectory hp' hslash (by simp [hq]) h
  unfold makeParent Path.parent? at hs
  rw [hparents] at hs
  split at hs
  · rename_i dir hdir
    obtain ⟨first, piece, rest, hway, hd, hpiece⟩ :=
      Path.mem_stops (List.mem_of_getLast? hdir)
    obtain ⟨q, hq, rfl⟩ := List.mem_map.mp hs
    -- The directory itself, or one of those on the way to it.
    have hcases : q = dir ∨ q ∈ dir.parents := by
      split at hq
      · exact .inl (List.mem_singleton.mp hq)
      · exact (List.mem_append.mp hq).symm.imp_left List.mem_singleton.mp
    rcases hcases with rfl | hq
    · exact hmake hway hd hpiece
    · obtain ⟨first', piece', rest', hway', hq', hpiece'⟩ :=
        Path.mem_stops ((List.dropLast_sublist _).mem hq)
      rw [hd] at hway'
      have hdirs : first ++ [piece] = first' ++ piece' :: rest' := hway'
      have hway'' : way = first' ++ piece' :: (rest' ++ rest) := by
        rw [hway, List.append_cons, hdirs]
        simp
      exact hmake hway'' hq' hpiece'
  · cases hs

end Disk

namespace SnapshotFile

variable {f : SnapshotFile} {t : Table κ} {d d' : Disk}

/-! ## The snapshot file -/

/-- The snapshot is all there, and is what a load gives. -/
structure Holds (f : SnapshotFile) (t : Table κ) (d : Disk) : Prop where
  read : d.read f.path = .ok (t.encode .pretty).toUTF8
  load : f.load d = .ok (some t.stored)

variable (κ) in
/-- The snapshot file on `d'` is what it was on `d`: the file that the path leads
to has the content that it had, or there is still none. Where the path led
before, a load gives what it gave; and no load gives a table that was not in the
file before. -/
structure Kept (f : SnapshotFile) (d d' : Disk) : Prop where
  file : ∀ here, d'.locate f.path = .ok here → d'.file? here = d.file? here
  load : ∀ here, d.locate f.path = .ok here →
    d'.read f.path = d.read f.path ∧
      (f.load d' : Except StoreError (Option (Table κ))) = f.load d
  loaded : ∀ t : Table κ, f.load d' = .ok (some t) → ∃ here bytes,
    d'.locate f.path = .ok here ∧ d.file? here = some bytes ∧ Table.decode? bytes = some t

/-- A table that a load gives is in the file that the path leads to. -/
theorem exists_of_load (h : f.load d = .ok (some t)) : ∃ here bytes,
    d.locate f.path = .ok here ∧ d.file? here = some bytes ∧ Table.decode? bytes = some t := by
  unfold load at h
  split at h
  · cases h
  · cases h
  · rename_i bytes hread
    obtain ⟨here, hl, hn⟩ := Disk.ok_of_bind_ok hread
    refine ⟨here, bytes, hl, ?_, ?_⟩
    · split at hn
      · rename_i content hfile
        cases hn
        simp [Disk.file?, hfile]
      · cases hn
      · cases hn
    · split at h
      · cases h
      · split at h
        · rename_i hdecode
          cases h
          exact hdecode
        · cases h

/-- What the path of a snapshot file and of its draft end in. -/
theorem exists_names (f : SnapshotFile) : ∃ way name, f.path.pieces = way ++ [name] ∧
    f.draft.pieces = way ++ [name ++ ".tmp"] ∧ Path.isName name = true := by
  obtain ⟨way, name, hpieces, hname⟩ := Path.exists_of_endsInName f.path_endsInName
  refine ⟨way, name, hpieces, ?_, hname⟩
  simp [draft, Path.addSuffix, hpieces]

/-- Up to the last step of a save, all files but the draft are left alone. -/
theorem spares_steps {way : List String} {name : String} (hpath : f.path.pieces = way ++ [name])
    (hdraft : f.draft.pieces = way ++ [name ++ ".tmp"]) (hname : Path.isName name = true)
    (bytes : ByteArray) : ∀ s ∈ Disk.makeParent f.path ++
      [.create f.draft, .append f.draft bytes, .sync f.draft],
    s.Spares f.path (name ++ ".tmp") := by
  have hlast {d : Disk} {here : Place} (hl : d.locate f.draft = .ok here) :
      here.getLast? = some (name ++ ".tmp") :=
    Disk.getLast?_of_locate hdraft (Path.isName_append_tmp name) hl
  have hslash : f.draft.endsInSlash = false := f.path.endsInSlash_addSuffix (by decide)
  have happend (d d' : Disk) (bytes : ByteArray) (h : d.append f.draft bytes = .ok d') :
      Disk.Spares f.path (name ++ ".tmp") d d' := by
    obtain ⟨here, old, hl, hn, rfl⟩ := Disk.append_ok h
    exact .set hpath hname (Path.append_tmp_ne name) (hlast hl) (by simp [hn]) _
  intro s hs
  rcases List.mem_append.mp hs with hs | hs
  · exact Disk.spares_of_mem_makeParent hpath hname _ hs
  · simp only [List.mem_cons, List.not_mem_nil, or_false] at hs
    rcases hs with rfl | rfl | rfl
    · refine fun d => ⟨fun d' h => ?_, fun n => .refl d⟩
      obtain ⟨here, hl, hn, rfl⟩ := Disk.create_ok h
      rw [Disk.locateNew_eq_locate hslash] at hl
      exact .set hpath hname (Path.append_tmp_ne name) (hlast hl) hn _
    · refine fun d => ⟨fun d' h => happend d d' bytes h, fun n => ?_⟩
      simp only [Disk.takePart]
      split
      · rename_i h
        exact happend _ _ _ h
      · exact .refl d
    · refine fun d => ⟨fun d' h => ?_, fun n => .refl d⟩
      obtain ⟨-, -, h⟩ := Disk.ok_of_bind_ok h
      cases h
      exact .refl d

theorem Kept.of_spares {way : List String} {name : String} (hpath : f.path.pieces = way ++ [name])
    (hname : Path.isName name = true) (h : Disk.Spares f.path (name ++ ".tmp") d d') :
    f.Kept κ d d' := by
  have hfile (here : Place) (hl : d'.locate f.path = .ok here) : d'.file? here = d.file? here := by
    refine h.files here ?_
    rw [Disk.getLast?_of_locate hpath hname hl]
    exact fun e => Path.append_tmp_ne name (Option.some.inj e).symm
  refine ⟨hfile, fun here hl => ?_, fun t ht => ?_⟩
  · have hread := h.read_eq hl
    exact ⟨hread, by rw [SnapshotFile.load, SnapshotFile.load, hread]⟩
  · obtain ⟨here, bytes, hl, hbytes, hdecode⟩ := exists_of_load ht
    exact ⟨here, bytes, hl, hfile here hl ▸ hbytes, hdecode⟩

theorem holds_of_run (h : d.run (f.saveSteps t) = (d', none)) : f.Holds t d' := by
  obtain ⟨-, tgt, -, htgt, hnode, -⟩ := f.replaced_of_save h
  have hread := Disk.read_of_file htgt hnode
  exact ⟨hread, f.load_of_read hread⟩

/-- A save that is cut short spares the snapshot, or has come to its end. -/
theorem spares_or_holds {way : List String} {name : String} (hpath : f.path.pieces = way ++ [name])
    (hdraft : f.draft.pieces = way ++ [name ++ ".tmp"]) (hname : Path.isName name = true)
    (t : Table κ) (d : Disk) (k n : Nat) :
    Disk.Spares f.path (name ++ ".tmp") d (d.cutShort (f.saveSteps t) k n) ∨
      f.Holds t (d.cutShort (f.saveSteps t) k n) := by
  have hsteps : f.saveSteps t = (Disk.makeParent f.path ++ [.create f.draft,
      .append f.draft (t.encode .pretty).toUTF8, .sync f.draft]) ++
      [.rename f.draft f.path] := by
    simp [saveSteps]
  rcases Disk.cutShort_concat (s := .rename f.draft f.path) (fun _ _ => rfl) d k n
    (Disk.makeParent f.path ++ [.create f.draft, .append f.draft (t.encode .pretty).toUTF8,
      .sync f.draft]) with h | h
  · rw [hsteps, h]
    exact .inl (Disk.spares_cutShort (spares_steps hpath hdraft hname _) d k n)
  · rw [← hsteps] at h
    exact .inr (holds_of_run h)

theorem Holds.of_spares (h : f.Holds t d) {draft : String} (hd : Disk.Spares f.path draft d d') :
    f.Holds t d' := by
  obtain ⟨here, hl, -⟩ := Disk.ok_of_bind_ok h.read
  have hread : d'.read f.path = .ok (t.encode .pretty).toUTF8 := by
    rw [hd.read_eq hl, h.read]
  exact ⟨hread, f.load_of_read hread⟩

/-- The disk after saves, each of which was cut short somewhere or came to its
end. -/
def afterSaves (f : SnapshotFile) (d : Disk) : List (Table κ × Nat × Nat) → Disk
  | [] => d
  | (t, k, n) :: saves => f.afterSaves (d.cutShort (f.saveSteps t) k n) saves

/-- After any saves, cut short anywhere, the snapshot file is what it was at
first or one of the new snapshots. -/
theorem kept_or_holds_afterSaves (f : SnapshotFile) (d : Disk)
    (saves : List (Table κ × Nat × Nat)) :
    f.Kept κ d (f.afterSaves d saves) ∨ ∃ s ∈ saves, f.Holds s.1 (f.afterSaves d saves) := by
  obtain ⟨way, name, hpath, hdraft, hname⟩ := f.exists_names
  suffices h : Disk.Spares f.path (name ++ ".tmp") d (f.afterSaves d saves) ∨
      ∃ s ∈ saves, f.Holds s.1 (f.afterSaves d saves) from
    h.imp_left (Kept.of_spares hpath hname)
  induction saves generalizing d with
  | nil => exact .inl (.refl d)
  | cons s saves ih =>
    obtain ⟨t, k, n⟩ := s
    rcases ih (d.cutShort (f.saveSteps t) k n) with hrest | ⟨s, hs, hholds⟩
    · rcases spares_or_holds hpath hdraft hname t d k n with hfirst | hfirst
      · exact .inl (hfirst.trans hrest)
      · exact .inr ⟨_, List.mem_cons_self, hfirst.of_spares hrest⟩
    · exact .inr ⟨s, List.mem_cons_of_mem _ hs, hholds⟩

end SnapshotFile

/-- **A save keeps the snapshot or replaces it.** Whatever is in the directory
before, and wherever a save is cut short, the snapshot file is then what it was
(or there is still none) and so is what is loaded from it, or else the file is
the complete new snapshot, and that is loaded. So it is when a save fails by
itself. After a save that succeeds it is the new snapshot, and there is no
draft. -/
theorem save_keeps_or_replaces (f : SnapshotFile) (t : Table κ) (d : Disk) :
    (∀ k n, f.Kept κ d (d.cutShort (f.saveSteps t) k n) ∨
      f.Holds t (d.cutShort (f.saveSteps t) k n)) ∧
    (f.Kept κ d (f.save t d).1 ∨ f.Holds t (f.save t d).1) ∧
    ((f.save t d).2 = .ok () →
      f.Holds t (f.save t d).1 ∧ (f.save t d).1.read f.draft = .error .noEntry) := by
  obtain ⟨way, name, hpath, hdraft, hname⟩ := f.exists_names
  have hcut (k n : Nat) := (SnapshotFile.spares_or_holds hpath hdraft hname t d k n).imp_left
    (SnapshotFile.Kept.of_spares (κ := κ) hpath hname)
  have hfirst : (f.save t d).1 = (d.run (f.saveSteps t)).1 := by
    unfold SnapshotFile.save
    split <;> simp [*]
  refine ⟨hcut, ?_, fun hok => ?_⟩
  · rw [hfirst, d.run_eq_cutShort 0]
    exact hcut _ 0
  · have hsave : f.save t d = ((f.save t d).1, .ok ()) := Prod.ext rfl hok
    have hrun := f.run_of_save hsave
    refine ⟨SnapshotFile.holds_of_run hrun, ?_⟩
    obtain ⟨src, tgt, hsrc, htgt, -, hgone⟩ := f.replaced_of_save hrun
    -- The two places differ in their last names.
    have hne : src ≠ tgt := by
      rintro rfl
      have hlast := Disk.getLast?_of_locate hpath hname htgt
      rw [Disk.getLast?_of_locate hdraft (Path.isName_append_tmp name) hsrc] at hlast
      exact Path.append_tmp_ne name (Option.some.inj hlast)
    simp only [Disk.read, hsrc, bind, Except.bind, hgone hne]
    rfl

/-- There is a snapshot and a part of a draft that was left behind. A save that is
cut short after seven bytes leaves the snapshot alone; one that comes to its end
replaces it, and the draft is gone. -/
theorem save_keeps_or_replaces_beside_leftover :
    let f := SnapshotFile.inDirectory ⟨["state"]⟩
    let t : Table Nat := ((ask 1 "build").decide {}).table
    let d := (Disk.run {} (Disk.writeSteps f.path " \n".toUTF8 ++
      Disk.writeSteps f.draft "leftover".toUTF8)).1
    let cut := d.cutShort (f.saveSteps t) 2 7
    cut.read f.path = .ok " \n".toUTF8 ∧
      cut.read f.draft = .ok ((t.encode .pretty).toUTF8.extract 0 7) ∧ f.Kept Nat d cut ∧
      (f.save t d).2 = .ok () ∧ f.Holds t (f.save t d).1 ∧
      (f.save t d).1.read f.draft = .error .noEntry := by
  intro f t d cut
  have h := save_keeps_or_replaces f t d
  have hread : cut.read f.path = .ok " \n".toUTF8 := by decide +kernel
  have hok : (f.save t d).2 = .ok () := by decide +kernel
  refine ⟨hread, by decide +kernel, (h.1 2 7).resolve_right fun hholds => ?_, hok, h.2.2 hok⟩
  rw [hholds.read] at hread
  exact absurd hread (by decide +kernel)

end SegmentGate
