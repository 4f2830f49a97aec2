import SegmentGate.Proofs.Session
import SegmentGate.Snapshot.InFile
import SegmentGate.Snapshot.InMemory

/-!
# Both stores keep what was saved

The snapshot in memory and the snapshot in a file are keepers of a table
(`SnapshotMemory.keeper`, `SnapshotFile.keeper`), each with its layout of the
text. For the file this is a fact about paths as much as about contents: the
steps of a save must come to the same places, and the path of the snapshot must
still lead there once the draft was renamed. It does because no step touches a
directory (`Disk.KeepsDirectories`), and only directories lie on the way.
-/
namespace SegmentGate

variable {κ : Type}

/-! ## Bytes -/

theorem ByteArray.toList_loop (b : ByteArray) (i : Nat) (read : List UInt8) :
    ByteArray.toList.loop b i read = read.reverse ++ b.data.toList.drop i := by
  fun_induction ByteArray.toList.loop b i read with
  | case1 i read h ih =>
    have hi : i < b.data.toList.length := by simpa using h
    have hnext : b.data.toList.drop i = b.get! i :: b.data.toList.drop (i + 1) := by
      simpa [ByteArray.get!, h] using List.drop_eq_getElem_cons hi
    rw [ih, hnext, List.reverse_cons, List.append_assoc]
    rfl
  | case2 i read h =>
    have hend : b.data.toList.drop i = [] :=
      List.drop_eq_nil_of_le (by simpa using Nat.le_of_not_lt h)
    rw [hend, List.append_nil]

theorem ByteArray.toList_eq (b : ByteArray) : b.toList = b.data.toList := by
  rw [ByteArray.toList, ByteArray.toList_loop]
  rfl

theorem utf8Bytes_ofList (cs : List Char) :
    (String.ofList cs).toUTF8.toList = cs.flatMap String.utf8EncodeChar := by
  have hbytes : (String.ofList cs).toUTF8 = (cs.flatMap String.utf8EncodeChar).toByteArray := rfl
  rw [ByteArray.toList_eq, hbytes, List.toList_data_toByteArray]

/-- A snapshot begins with a bracket, which is no blank. -/
theorem Table.encode_not_blank (l : Json.Layout) (t : Table κ) :
    (t.encode l).toUTF8.toList.all SnapshotFile.isBlankByte = false := by
  obtain ⟨cs, hcs⟩ : ∃ cs, Json.write l 0 t.toJson = '\x7b' :: cs := ⟨_, rfl⟩
  rw [Table.encode, Json.render, hcs, utf8Bytes_ofList, List.flatMap_cons]
  rfl

/-! ## Paths on a disk that changes -/

namespace Path

theorem endsInSlash_addSuffix (p : Path) {suffix : String} (h : suffix ≠ "") :
    (p.addSuffix suffix).endsInSlash = false := by
  unfold addSuffix endsInSlash
  cases p.pieces.getLast? with
  | none => simpa using h
  | some piece => simp [h]

end Path

namespace Disk

variable {d d' : Disk} {p : Path} {here : Place}

/-- Every directory is still there. -/
def KeepsDirectories (d d' : Disk) : Prop :=
  ∀ here, d.node? here = some .directory → d'.node? here = some .directory

theorem follow_of_keepsDirectories (h : KeepsDirectories d d') {start : Place}
    {pieces : List String} (hf : d.follow start pieces = .ok here) :
    d'.follow start pieces = .ok here := by
  induction pieces generalizing start with
  | nil => exact hf
  | cons piece rest ih =>
    unfold follow at hf ⊢
    split at hf
    · rename_i hn
      rw [h start hn]
      split at hf
      · cases hf
      · rename_i hlong
        rw [if_neg hlong]
        exact ih hf
    · cases hf
    · cases hf

theorem locate_of_keepsDirectories (h : KeepsDirectories d d') (hl : d.locate p = .ok here) :
    d'.locate p = .ok here := by
  unfold locate at hl ⊢
  cases hf : p.fault? with
  | some e => rw [hf] at hl; cases hl
  | none =>
    rw [hf] at hl
    exact follow_of_keepsDirectories h hl

theorem isPrefixOf_of_not_directory (h : d.node? here ≠ some .directory) :
    here.isPrefixOf workingDirectory = false := by
  unfold node? at h
  cases hp : here.isPrefixOf workingDirectory with
  | false => rfl
  | true => simp [hp] at h

theorem node?_set (h : d.node? here ≠ some .directory) (n : Node) (q : Place) :
    (d.set here n).node? q = if q = here then some n else d.node? q := by
  have hhere := isPrefixOf_of_not_directory h
  by_cases hq : q = here
  · subst hq
    simp [node?, set, hhere]
  · simp [node?, set, hq]

theorem keepsDirectories_set (h : d.node? here ≠ some .directory) (n : Node) :
    KeepsDirectories d (d.set here n) := by
  intro q hq
  rw [node?_set h]
  split
  · rename_i e
    exact absurd (e ▸ hq) h
  · exact hq

/-- A path that does not end in a slash leads to the same place, whether
something is there or is to be made there. -/
theorem locateNew_eq_locate (h : p.endsInSlash = false) : d.locateNew p = d.locate p := by
  have hlast : (start p).2.getLast? ≠ some "" := by
    have hp : p.pieces.getLast? ≠ some "" := by simpa [Path.endsInSlash] using h
    unfold start
    split
    · rename_i habs
      unfold Path.isAbsolute at habs
      split at habs
      · rename_i hpieces
        rw [hpieces, List.getLast?_cons_cons] at hp
        simpa [hpieces] using hp
      · cases habs
    · exact hp
  have hpieces : ((start p).2.reverse.dropWhile (· = "")).reverse = (start p).2 := by
    rw [← List.head?_reverse] at hlast
    cases hr : (start p).2.reverse with
    | nil => simpa using hr.symm
    | cons piece rest =>
      rw [hr] at hlast
      have hpiece : piece ≠ "" := by simpa using hlast
      rw [List.dropWhile_cons_of_neg (by simpa using hpiece), ← hr, List.reverse_reverse]
  unfold locateNew locate
  rw [hpieces]

theorem run_append (d : Disk) (xs ys : List Step) :
    d.run (xs ++ ys) = match d.run xs with
      | (d, none) => d.run ys
      | (d, some e) => (d, some e) := by
  induction xs generalizing d with
  | nil => rfl
  | cons x xs ih =>
    rw [List.cons_append, run, run]
    cases d.step x with
    | ok d => exact ih d
    | error e => rfl

/-- A step of a run in which none fails. -/
theorem run_cons_ok {x : Step} {xs : List Step} (h : d.run (x :: xs) = (d', none)) :
    ∃ d₁, d.step x = .ok d₁ ∧ d₁.run xs = (d', none) := by
  unfold run at h
  cases hx : d.step x with
  | ok d₁ => exact ⟨d₁, rfl, by rwa [hx] at h⟩
  | error e => rw [hx] at h; cases h

/-- A computation that comes to a result has come to its first part. -/
theorem ok_of_bind_ok {ε α β : Type} {x : Except ε α} {f : α → Except ε β} {b : β}
    (h : (x >>= f) = .ok b) : ∃ a, x = .ok a ∧ f a = .ok b := by
  cases x with
  | error e => cases h
  | ok a => exact ⟨a, rfl, h⟩

theorem create_ok (h : d.create p = .ok d') :
    ∃ here, d.locateNew p = .ok here ∧ d.node? here ≠ some .directory ∧
      d' = d.set here (.file .empty) := by
  obtain ⟨here, hl, h⟩ := ok_of_bind_ok h
  refine ⟨here, hl, ?_⟩
  cases hslash : p.endsInSlash with
  | true =>
    simp only [hslash, if_true] at h
    cases h
  | false =>
    simp only [hslash, Bool.false_eq_true, if_false] at h
    split at h
    · cases h
    · rename_i hn
      cases h
      exact ⟨hn, rfl⟩

theorem append_ok {bytes : ByteArray} (h : d.append p bytes = .ok d') :
    ∃ here old, d.locate p = .ok here ∧ d.node? here = some (.file old) ∧
      d' = d.set here (.file (old ++ bytes)) := by
  obtain ⟨here, hl, h⟩ := ok_of_bind_ok h
  split at h
  · rename_i old hn
    cases h
    exact ⟨here, old, hl, hn, rfl⟩
  · cases h
  · cases h

theorem rename_ok {source target : Path} (h : d.rename source target = .ok d') :
    ∃ src tgt bytes, d.locate source = .ok src ∧ d.locate target = .ok tgt ∧
      d.node? src = some (.file bytes) ∧ d.node? tgt ≠ some .directory ∧
      d' = ⟨(d.nodes.erase src).insert tgt (.file bytes)⟩ := by
  obtain ⟨src, hs, h⟩ := ok_of_bind_ok h
  obtain ⟨tgt, ht, h⟩ := ok_of_bind_ok h
  split at h
  · cases h
  · rename_i bytes hfile hdirectory
    cases h
    exact ⟨src, tgt, bytes, hs, ht, hfile, hdirectory, rfl⟩
  · cases h
  · cases h

theorem node?_rename {src tgt : Place} (hsrc : d.node? src ≠ some .directory)
    (htgt : d.node? tgt ≠ some .directory) (bytes : ByteArray) (q : Place) :
    (⟨(d.nodes.erase src).insert tgt (.file bytes)⟩ : Disk).node? q =
      if q = tgt then some (.file bytes) else if q = src then none else d.node? q := by
  have hs := isPrefixOf_of_not_directory hsrc
  have ht := isPrefixOf_of_not_directory htgt
  by_cases hqt : q = tgt
  · subst hqt
    simp [node?, ht]
  · by_cases hqs : q = src
    · subst hqs
      simp [node?, hs, hqt]
    · simp [node?, hqt, hqs]

theorem read_of_file {bytes : ByteArray} (hl : d.locate p = .ok here)
    (hn : d.node? here = some (.file bytes)) : d.read p = .ok bytes := by
  simp only [read, hl, bind, Except.bind, hn]
  rfl

/-- A file made, filled and renamed in one go is found under its new name, and
nothing is left where it was made. -/
theorem replaced {draft path : Path} {bytes : ByteArray} (hdraft : draft.endsInSlash = false)
    (h : d.run [.create draft, .append draft bytes, .sync draft, .rename draft path] =
      (d', none)) :
    ∃ src tgt, d'.locate draft = .ok src ∧ d'.locate path = .ok tgt ∧
      d'.node? tgt = some (.file bytes) ∧ (src ≠ tgt → d'.node? src = none) := by
  obtain ⟨d₁, hcreate, h⟩ := run_cons_ok h
  obtain ⟨d₂, happend, h⟩ := run_cons_ok h
  obtain ⟨d₃, hsync, h⟩ := run_cons_ok h
  obtain ⟨d₄, hrename, h⟩ := run_cons_ok h
  obtain rfl : d' = d₄ := (congrArg Prod.fst h).symm
  obtain ⟨_, -, hsync⟩ := ok_of_bind_ok hsync
  obtain rfl : d₂ = d₃ := Except.ok.inj hsync
  -- All steps come to the place where the draft was made.
  obtain ⟨here, hl, hn, hd₁⟩ := create_ok hcreate
  rw [locateNew_eq_locate hdraft] at hl
  have hkeep : KeepsDirectories d d₁ := hd₁ ▸ keepsDirectories_set hn (.file .empty)
  have hn₁ : d₁.node? here = some (.file .empty) := by
    rw [hd₁, node?_set hn, if_pos rfl]
  have hl₁ := locate_of_keepsDirectories hkeep hl
  obtain ⟨here₁, old, hl', hold, hd₂⟩ := append_ok happend
  obtain rfl : here = here₁ := Except.ok.inj (hl₁.symm.trans hl')
  obtain rfl : ByteArray.empty = old := by
    rw [hn₁] at hold
    cases hold
    rfl
  rw [ByteArray.empty_append] at hd₂
  have hfile₁ : d₁.node? here ≠ some .directory := by rw [hn₁]; simp
  have hkeep₂ : KeepsDirectories d₁ d₂ := hd₂ ▸ keepsDirectories_set hfile₁ (.file bytes)
  have hn₂ : d₂.node? here = some (.file bytes) := by
    rw [hd₂, node?_set hfile₁, if_pos rfl]
  obtain ⟨src, tgt, content, hsrc, htgt, hcontent, hdirectory, hd'⟩ := rename_ok hrename
  obtain rfl : here = src :=
    Except.ok.inj ((locate_of_keepsDirectories hkeep₂ hl₁).symm.trans hsrc)
  obtain rfl : bytes = content := by
    rw [hn₂] at hcontent
    cases hcontent
    rfl
  -- The path still leads to the place that it led to before the renaming.
  have hfile₂ : d₂.node? here ≠ some .directory := by rw [hn₂]; simp
  have hnode := node?_rename hfile₂ hdirectory bytes
  rw [← hd'] at hnode
  have hkeep' : KeepsDirectories d₂ d' := by
    intro q hq
    rw [hnode, if_neg, if_neg]
    · exact hq
    · rintro rfl
      exact hfile₂ hq
    · rintro rfl
      exact hdirectory hq
  exact ⟨here, tgt, locate_of_keepsDirectories hkeep' hsrc, locate_of_keepsDirectories hkeep' htgt,
    by rw [hnode, if_pos rfl], fun hne => by rw [hnode, if_neg hne, if_pos rfl]⟩

end Disk

/-! ## The stores -/

/-- After a save the snapshot is where its path leads, and the draft is gone. -/
theorem SnapshotFile.replaced_of_save (f : SnapshotFile) {t : Table κ} {d d' : Disk}
    (h : d.run (f.saveSteps t) = (d', none)) :
    ∃ src tgt, d'.locate f.draft = .ok src ∧ d'.locate f.path = .ok tgt ∧
      d'.node? tgt = some (.file (t.encode .pretty).toUTF8) ∧
      (src ≠ tgt → d'.node? src = none) := by
  rw [saveSteps, Disk.run_append] at h
  split at h
  · exact Disk.replaced (f.path.endsInSlash_addSuffix (by decide)) h
  · cases h

theorem SnapshotFile.load_of_read (f : SnapshotFile) {t : Table κ} {d : Disk}
    (h : d.read f.path = .ok (t.encode .pretty).toUTF8) : f.load d = .ok (some t.stored) := by
  unfold load
  rw [h]
  simp only [t.encode_not_blank, t.decode?_encode Json.Layout.pretty_blank, Bool.false_eq_true,
    if_false]

theorem SnapshotFile.run_of_save (f : SnapshotFile) {t : Table κ} {d d' : Disk}
    (h : f.save t d = (d', .ok ())) : d.run (f.saveSteps t) = (d', none) := by
  unfold save at h
  split at h
  · rename_i hrun
    cases h
    exact hrun
  · cases h

theorem SnapshotFile.load_of_save (f : SnapshotFile) {t : Table κ} {d d' : Disk}
    (h : f.save t d = (d', .ok ())) : f.load d' = .ok (some t.stored) := by
  obtain ⟨-, tgt, -, htgt, hnode, -⟩ := f.replaced_of_save (f.run_of_save h)
  exact f.load_of_read (Disk.read_of_file htgt hnode)

/-- The snapshot in a file is a store on a disk. -/
def SnapshotFile.keeper (f : SnapshotFile) : Keeper Disk κ where
  name := SnapshotFile.name
  load := f.load
  save := f.save
  load_of_save := f.load_of_save

theorem SnapshotMemory.load_save (m : SnapshotMemory) (t : Table κ) :
    (m.save t).load = .ok (some t.stored) := by
  have hdecode := t.decode?_encode Json.Layout.compact_blank
  simp only [save, load, hdecode]

/-- The snapshot in memory, to which every save succeeds. -/
def SnapshotMemory.keeper : Keeper SnapshotMemory κ where
  name := SnapshotMemory.name
  load := SnapshotMemory.load
  save t m := (m.save t, .ok ())
  load_of_save := by
    rintro t m _ ⟨⟩
    exact m.load_save t

end SegmentGate
