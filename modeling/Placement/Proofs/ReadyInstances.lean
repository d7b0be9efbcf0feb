import Placement.Proofs.GridMetric
import Placement.Proofs.HeuristicAnswers
import Placement.Proofs.InstanceGrammar
import Placement.Suite.Bench

/-!
# How far an instance of the bench is ready

An instance comes from a file or is made up. Three checks stand between the bytes of a file and a
problem: the bytes must be text, the text must be two matrices, and their side must be the one that
the catalog lists. Together they leave a single defect of assignment problems open. The reader of
numbers accepts words for what is not finite, and nothing behind it looks at the entries again, so a
file can be handed out as an instance that every solver turns away (`instanceNamed_not_finite`). All
else that the check of a problem asks for is settled by the shape of what was read, and made up
instances have no defect at all.
-/

namespace Placement

theorem InstanceText.dim_of_parse {text : String} {distance flow : Matrix Float}
    (h : parse text = .ok (distance, flow)) :
    ∃ n, 0 < n ∧ distance.dim = (n, n) ∧ flow.dim = (n, n) := by
  obtain ⟨n, hopens, hd, hf⟩ := parse_eq_ok_iff.mp h
  exact ⟨n, hopens.pos, hd.dim_eq, hf.dim_eq⟩

/-! ## Files -/

namespace Folder

/-- A part of a path that names an entry, and does not move the walk in any other way. -/
def IsPlain (part : String) : Prop :=
  '/' ∉ part.toList ∧ stays part = false ∧ part ≠ leave

instance : DecidablePred IsPlain := fun part =>
  inferInstanceAs (Decidable ('/' ∉ part.toList ∧ stays part = false ∧ part ≠ leave))

variable {part : String} (f : Folder)

theorem find_of_isPlain (h : IsPlain part) : f.find part =
    match f.entries[part]? with
    | some entry => .ok (.at entry)
    | none => .error .notFound := by
  obtain ⟨hslash, hstays, hleave⟩ := h
  have hparts : parts part = [part] := by
    rw [parts, List.splitOn_eq_singleton hslash, List.map_singleton, String.ofList_toList]
  rw [find, hparts, List.foldlM_cons, follow, hstays, if_neg (by decide), if_neg hleave]
  cases f.entries[part]? <;> rfl

theorem isFile_iff (h : IsPlain part) :
    f.isFile part = true ↔ ∃ bytes, f.entries[part]? = some (.file bytes) := by
  rw [isFile, f.find_of_isPlain h]
  cases f.entries[part]? with
  | none => simp
  | some entry => cases entry <;> simp

theorem loadInstance_eq_ok_iff (h : IsPlain part) {bytes : ByteArray}
    (hfile : f.entries[part]? = some (.file bytes)) (matrices : Matrix Float × Matrix Float) :
    f.loadInstance part = .ok matrices ↔
      ∃ text, String.fromUTF8? bytes = some text ∧ InstanceText.parse text = .ok matrices := by
  have hread : f.readText part = (String.fromUTF8? bytes).elim (.error .notText) .ok := by
    rw [readText, f.find_of_isPlain h, hfile]
    simp only [bind, Except.bind]
    cases String.fromUTF8? bytes <;> rfl
  rw [loadInstance, hread]
  cases String.fromUTF8? bytes <;> simp

end Folder

namespace Catalog

theorem mem_of_find? {name : String} {entry : CatalogEntry} (h : find? name = some entry) :
    entry ∈ entries :=
  List.mem_of_find?_eq_some h

theorem isPlain_fileName {entry : CatalogEntry} (h : entry ∈ entries) :
    Folder.IsPlain (Bench.fileName entry.name) := by
  have hall : ∀ name ∈ names, Folder.IsPlain (Bench.fileName name) := by decide
  exact hall _ (List.mem_map_of_mem h)

theorem size_le {entry : CatalogEntry} (h : entry ∈ entries) :
    0 < entry.size ∧ entry.size ≤ 32 := by
  have hall : ∀ size ∈ entries.map CatalogEntry.size, 0 < size ∧ size ≤ 32 := by decide
  exact hall _ (List.mem_map_of_mem h)

end Catalog

/-! ## Instances -/

namespace Bench

/-- The bytes that a bench has under the name of an instance. -/
def bytes? (b : Bench) (name : String) : Option ByteArray :=
  b.folder.bind fun folder =>
    match folder.entries[fileName name]? with
    | some (.file bytes) => some bytes
    | _ => none

/-- The bytes are a text of two matrices of side `n`. -/
def Holds (bytes : ByteArray) (n : Nat) (matrices : Matrix Float × Matrix Float) : Prop :=
  (∃ text, String.fromUTF8? bytes = some text ∧ InstanceText.parse text = .ok matrices) ∧
    matrices.1.rows = n

theorem Holds.dim {bytes : ByteArray} {n : Nat} {matrices : Matrix Float × Matrix Float}
    (h : Holds bytes n matrices) :
    0 < n ∧ matrices.1.dim = (n, n) ∧ matrices.2.dim = (n, n) := by
  obtain ⟨⟨text, -, hparse⟩, rfl⟩ := h
  obtain ⟨n, hn, hd, hf⟩ := InstanceText.dim_of_parse hparse
  have hrows : matrices.1.rows = n := congrArg Prod.fst hd
  rw [hrows]
  exact ⟨hn, hd, hf⟩

theorem load_eq_ok_iff (folder : Folder) (entry : CatalogEntry)
    (matrices : Matrix Float × Matrix Float) : load folder entry = .ok matrices ↔
      folder.loadInstance (fileName entry.name) = .ok matrices ∧ matrices.1.rows = entry.size := by
  have hload : load folder entry = folder.loadInstance (fileName entry.name) >>= fun found =>
      if found.1.rows ≠ entry.size then
        .error (.parse (folder.display (fileName entry.name) ++ " has dimension " ++
          toString found.1.rows ++ ", expected " ++ toString entry.size))
      else .ok found := rfl
  rw [hload]
  constructor
  · intro h
    obtain ⟨found, hfound, hrest⟩ := ok_of_bind h
    obtain ⟨hrows, hsame⟩ := ite_error_eq_ok.mp hrest
    cases hsame
    exact ⟨hfound, not_not.mp hrows⟩
  · rintro ⟨hfound, hrows⟩
    rw [hfound]
    exact if_neg (not_not.mpr hrows)

/-- The instance that is handed out for these matrices. -/
def ready (entry : CatalogEntry) (synthetic : Bool) (matrices : Matrix Float × Matrix Float) :
    BenchInstance where
  name := entry.name
  size := entry.size
  optimum := entry.optimum
  problem := problemOf entry.name synthetic matrices
  synthetic := synthetic

theorem source?_eq {b : Bench} {entry : CatalogEntry} {bytes : ByteArray}
    (hentry : entry ∈ Catalog.entries) (hbytes : b.bytes? entry.name = some bytes) :
    ∃ folder, b.source? entry = some folder ∧
      folder.entries[fileName entry.name]? = some (.file bytes) := by
  obtain ⟨folder, hfolder, hfile⟩ := Option.bind_eq_some_iff.mp hbytes
  have hentries : folder.entries[fileName entry.name]? = some (.file bytes) := by
    split at hfile
    · next h =>
      cases hfile
      exact h
    · cases hfile
  refine ⟨folder, ?_, hentries⟩
  rw [source?, hfolder]
  exact Option.filter_some_pos ((folder.isFile_iff (Catalog.isPlain_fileName hentry)).mpr ⟨_, hentries⟩)

theorem source?_eq_none {b : Bench} {entry : CatalogEntry} (hentry : entry ∈ Catalog.entries)
    (hbytes : b.bytes? entry.name = none) : b.source? entry = none := by
  rw [source?, Option.filter_eq_none_iff]
  intro folder hfolder hfile
  obtain ⟨bytes, hentries⟩ := (folder.isFile_iff (Catalog.isPlain_fileName hentry)).mp hfile
  simp [bytes?, hfolder, hentries] at hbytes

variable {b : Bench} {name : String} {entry : CatalogEntry}

theorem instanceNamed_of_unknown (h : Catalog.find? name = none) :
    b.instanceNamed name = .error (.unknownInstance name) := by
  rw [instanceNamed, h]

/-- What is listed is small enough to be made up. -/
theorem exists_made (h : Catalog.find? name = some entry) : ∃ matrices,
    Grid.matrices name entry.size = .ok matrices ∧
      matrices.1.dim = (entry.size, entry.size) ∧ matrices.2.dim = (entry.size, entry.size) ∧
      matrices.1.isFinite = true ∧ matrices.2.isFinite = true := by
  obtain ⟨-, hle⟩ := Catalog.size_le (Catalog.mem_of_find? h)
  obtain ⟨f, hf, hmade⟩ := Grid.exists_matrices name (hle.trans_lt (by decide))
  refine ⟨_, hmade, rfl, rfl, Grid.isFinite_counts fun i hi j hj => ?_,
    Grid.isFinite_counts fun i _ j _ => (Nat.lt_succ_of_le (hf.le i j)).trans (by decide)⟩
  exact (Grid.steps_lt _ hi hj).trans (by omega)

/-- Without a file an instance is made up. -/
theorem instanceNamed_of_no_file (h : Catalog.find? name = some entry)
    (hbytes : b.bytes? name = none) {matrices : Matrix Float × Matrix Float}
    (hmade : Grid.matrices name entry.size = .ok matrices) :
    b.instanceNamed name = .ok (ready entry true matrices) := by
  obtain rfl := Catalog.name_of_find? h
  rw [instanceNamed, h]
  simp only [source?_eq_none (Catalog.mem_of_find? h) hbytes, hmade]
  rfl

/-- With a file an instance is what the file holds, or nothing. -/
theorem instanceNamed_of_file {bytes : ByteArray} (h : Catalog.find? name = some entry)
    (hbytes : b.bytes? name = some bytes) (i : BenchInstance) :
    b.instanceNamed name = .ok i ↔
      ∃ matrices, Holds bytes entry.size matrices ∧ i = ready entry false matrices := by
  obtain rfl := Catalog.name_of_find? h
  have hentry := Catalog.mem_of_find? h
  obtain ⟨folder, hfolder, hfile⟩ := source?_eq hentry hbytes
  have hload : ∀ matrices, load folder entry = .ok matrices ↔ Holds bytes entry.size matrices := by
    intro matrices
    rw [load_eq_ok_iff, folder.loadInstance_eq_ok_iff (Catalog.isPlain_fileName hentry) hfile]
    rfl
  have hmap : b.instanceNamed entry.name = (load folder entry).map (ready entry false) := by
    rw [instanceNamed, h]
    simp only [hfolder]
    rfl
  rw [hmap]
  constructor
  · intro hok
    cases hfound : load folder entry with
    | error cause => simp [hfound, Except.map] at hok
    | ok matrices =>
        rw [hfound] at hok
        cases hok
        exact ⟨matrices, (hload matrices).mp hfound, rfl⟩
  · rintro ⟨matrices, hholds, rfl⟩
    rw [(hload matrices).mpr hholds]
    rfl

/-! ## What is known of an instance -/

theorem defect?_problemOf (name : String) (synthetic : Bool)
    (matrices : Matrix Float × Matrix Float) : (problemOf name synthetic matrices).defect? =
      (pairDefect? matrices.1 matrices.2).map Defect.pair := by
  have hd : (problemOf name synthetic matrices).get? DataKey.distance = some matrices.1 :=
    Problem.get?_assignment_distance matrices.1 matrices.2
  have hf : (problemOf name synthetic matrices).get? DataKey.flow = some matrices.2 :=
    Problem.get?_assignment_flow matrices.1 matrices.2
  show (problemOf name synthetic matrices).assignmentDefect? = _
  rw [Problem.assignmentDefect?, hd, hf]

/-- An instance that is ready to solve up to its numbers: it is what the catalog lists, its problem has
the size of the catalog, and if that problem has a defect then a number read from a file is not
finite. -/
structure Ready (entry : CatalogEntry) (i : BenchInstance) : Prop where
  name_eq : i.name = entry.name
  size_eq : i.size = entry.size
  optimum_eq : i.optimum = entry.optimum
  dimension_eq : i.problem.dimension? = some i.size
  data : ∃ distance flow, i.problem.get? DataKey.distance = some distance ∧
    i.problem.get? DataKey.flow = some flow ∧
    distance.dim = (i.size, i.size) ∧ flow.dim = (i.size, i.size) ∧
    (i.problem.validate.valid = true ↔ distance.isFinite = true ∧ flow.isFinite = true)
  defect : ∀ defect, i.problem.defect? = some defect →
    i.synthetic = false ∧ defect = .pair .notFinite

theorem ready_of_dim {synthetic : Bool} {matrices : Matrix Float × Matrix Float}
    (hn : 0 < entry.size) (hd : matrices.1.dim = (entry.size, entry.size))
    (hf : matrices.2.dim = (entry.size, entry.size))
    (hmade : synthetic = true → matrices.1.isFinite = true ∧ matrices.2.isFinite = true) :
    Ready entry (ready entry synthetic matrices) := by
  have hdefect : (ready entry synthetic matrices).problem.defect? =
      if matrices.1.isFinite && matrices.2.isFinite then none else some (.pair .notFinite) := by
    rw [show (ready entry synthetic matrices).problem.defect? = _ from defect?_problemOf ..,
      pairDefect?_of_dim hn hd hf]
    split <;> rfl
  have hdistance : (ready entry synthetic matrices).problem.get? DataKey.distance =
      some matrices.1 := Problem.get?_assignment_distance matrices.1 matrices.2
  refine ⟨rfl, rfl, rfl, ?_, ⟨matrices.1, matrices.2, hdistance,
    Problem.get?_assignment_flow matrices.1 matrices.2, hd, hf, ?_⟩, ?_⟩
  · have hrows : matrices.1.rows = entry.size := congrArg Prod.fst hd
    show ((ready entry synthetic matrices).problem.get? DataKey.distance).map Matrix.rows = _
    rw [hdistance, Option.map_some, hrows]
    rfl
  · rw [Problem.validate_valid_iff, hdefect]
    simp
  · intro defect h
    rw [hdefect] at h
    split at h
    · cases h
    · next hinfinite =>
      cases h
      refine ⟨Bool.eq_false_of_not_eq_true fun hsynthetic => hinfinite ?_, rfl⟩
      simp [hmade hsynthetic]

/-- Where there is no file, an instance is handed out all the same. -/
theorem exists_ready_made (h : Catalog.find? name = some entry) (hbytes : b.bytes? name = none) :
    ∃ matrices, b.instanceNamed name = .ok (ready entry true matrices) ∧
      Ready entry (ready entry true matrices) := by
  obtain ⟨matrices, hmade, hd, hf, hfinite⟩ := exists_made h
  obtain ⟨hpos, -⟩ := Catalog.size_le (Catalog.mem_of_find? h)
  exact ⟨matrices, instanceNamed_of_no_file h hbytes hmade, ready_of_dim hpos hd hf fun _ => hfinite⟩

theorem exists_ready {i : BenchInstance} (hok : b.instanceNamed name = .ok i) :
    ∃ entry, Catalog.find? name = some entry ∧ entry.name = name ∧ Ready entry i := by
  cases h : Catalog.find? name with
  | none =>
      rw [instanceNamed_of_unknown h] at hok
      cases hok
  | some entry =>
      refine ⟨entry, rfl, Catalog.name_of_find? h, ?_⟩
      cases hbytes : b.bytes? name with
      | none =>
          obtain ⟨matrices, hmade, hready⟩ := exists_ready_made h hbytes
          cases hok.symm.trans hmade
          exact hready
      | some bytes =>
          obtain ⟨matrices, hholds, rfl⟩ := (instanceNamed_of_file h hbytes i).mp hok
          obtain ⟨hpos, hd, hf⟩ := hholds.dim
          exact ready_of_dim hpos hd hf nofun

/-- Whatever the data folder holds, an instance that is handed out is what the catalog lists under its
name, with matrices of that size, and has at most one defect: a number of its file is not finite. Where
there is no file the instance is made up, and valid. Where there is one, what the file holds is handed
out if it is two matrices of the right size, and nothing is otherwise. -/
theorem instanceNamed_ready_up_to_finite (b : Bench) (name : String) :
    (∀ i, b.instanceNamed name = .ok i →
      ∃ entry, Catalog.find? name = some entry ∧ entry.name = name ∧ Ready entry i) ∧
    ∀ entry, Catalog.find? name = some entry →
      (b.bytes? name = none → ∃ i, b.instanceNamed name = .ok i ∧
        i.synthetic = true ∧ i.problem.validate.valid = true) ∧
      ∀ bytes, b.bytes? name = some bytes →
        (∀ i, b.instanceNamed name = .ok i → i.synthetic = false ∧
          ∃ matrices, Holds bytes entry.size matrices ∧ i.problem = problemOf name false matrices) ∧
        ((∃ cause, b.instanceNamed name = .error cause) ↔
          ¬∃ matrices, Holds bytes entry.size matrices) := by
  refine ⟨fun i => exists_ready, fun entry h => ⟨?_, fun bytes hbytes => ⟨?_, ?_, ?_⟩⟩⟩
  · intro hbytes
    obtain ⟨matrices, hmade, hready⟩ := exists_ready_made h hbytes
    refine ⟨_, hmade, rfl, ?_⟩
    rw [Problem.validate_valid_iff, Option.eq_none_iff_forall_ne_some]
    intro defect hdefect
    obtain ⟨hsynthetic, -⟩ := hready.defect defect hdefect
    cases hsynthetic
  · intro i hok
    obtain ⟨matrices, hholds, rfl⟩ := (instanceNamed_of_file h hbytes i).mp hok
    obtain rfl := Catalog.name_of_find? h
    exact ⟨rfl, matrices, hholds, rfl⟩
  · rintro ⟨cause, herror⟩ ⟨matrices, hholds⟩
    rw [(instanceNamed_of_file h hbytes _).mpr ⟨matrices, hholds, rfl⟩] at herror
    cases herror
  · intro hnone
    cases hok : b.instanceNamed name with
    | error cause => exact ⟨cause, rfl⟩
    | ok i =>
        obtain ⟨matrices, hholds, -⟩ := (instanceNamed_of_file h hbytes i).mp hok
        exact absurd ⟨matrices, hholds⟩ hnone

/-- Five slots, and no number for the distance of the first to itself. -/
def holedText : String := "5 nan" ++ String.join (List.replicate 49 " 0")

def holed : Bench where
  folder := some ⟨"data", (∅ : Keyed FolderEntry).insert "nug5.dat" (.file holedText.toUTF8)⟩

/-- The file is read and handed out, though the problem in it is invalid. -/
theorem instanceNamed_not_finite :
    ∃ i, holed.instanceNamed "nug5" = .ok i ∧ i.synthetic = false ∧
      i.problem.validate.valid = false := by
  have hseen : (holed.instanceNamed "nug5").toOption.map
      (fun i => (i.synthetic, i.problem.validate.valid)) = some (false, false) := by
    decide +kernel
  cases hok : holed.instanceNamed "nug5" with
  | error cause =>
      rw [hok] at hseen
      cases hseen
  | ok i =>
      rw [hok] at hseen
      obtain ⟨hsynthetic, hvalid⟩ := Prod.mk.inj (Option.some.inj hseen)
      exact ⟨i, rfl, hsynthetic, hvalid⟩

end Bench

end Placement
