import Obstack.Coverage
import Obstack.Lookup

/-! Address translation against the loader. An image is a set of loaded copies of ELF files
and the lines the kernel prints for it; addr2offset inverts the load bias of a copy exactly
where the run of a Map begins at that copy's first executable segment, on a page boundary. -/
namespace Obstack
open CText Runs Vma

/-- An ELF file as the maps file names it, with its program headers. -/
structure ElfFile where
  major : Nat
  minor : Nat
  inode : Nat
  name : Str
  phdrs : List Phdr
  deriving DecidableEq

def ElfFile.IsOf (file : ElfFile) (v : Vma) : Prop :=
  v.major = file.major ∧ v.minor = file.minor ∧ v.inode = file.inode ∧ v.name = some file.name

instance (file : ElfFile) (v : Vma) : Decidable (file.IsOf v) :=
  inferInstanceAs (Decidable (_ ∧ _))

structure Copy where
  file : ElfFile
  bias : ULong
  deriving DecidableEq

def pageDown (page addr : Nat) : Nat := addr / page * page

namespace Copy

/-- Link-time address v lies in an executable segment. -/
def IsText (f : Copy) (v : ULong) : Prop :=
  ∃ ph ∈ f.file.phdrs, ph.execLoad = true ∧ ph.pVaddr.toNat ≤ v.toNat ∧
    v.toNat < ph.pVaddr.toNat + ph.pMemsz.toNat

/-- Where the loader maps a segment. -/
def segmentStart (page : Nat) (f : Copy) (ph : Phdr) : Nat :=
  pageDown page (f.bias + ph.pVaddr).toNat

end Copy

/-- The lines of a process that loaded these copies, among files of any kind, and what check_shlib
reads of the copies. -/
structure Loaded (page : Nat) (elf : Str → ElfRead) (copies : List Copy) (vmas : List Vma) :
    Prop where
  pageSize : page ∣ 2 ^ 64
  ascending : Vma.Ascending vmas
  aligned : ∀ v ∈ vmas, page ∣ v.start
  biased : ∀ f ∈ copies, page ∣ f.bias.toNat
  congruent : ∀ f ∈ copies, ∀ ph ∈ f.file.phdrs, ph.pType = ptLoadType →
    ph.pOffset.toNat % page = ph.pVaddr.toNat % page
  mapped : ∀ f ∈ copies, ∀ ph ∈ f.file.phdrs, ph.pType = ptLoadType → 0 < ph.pFilesz.toNat →
    ∃ v ∈ vmas, f.file.IsOf v ∧ v.start = f.segmentStart page ph
  headers : ∀ f ∈ copies, ∀ v ∈ vmas, f.file.IsOf v → elf v.path = .headers f.file.phdrs

/-- Every file the lines name is one of the copies. -/
structure Image (page : Nat) (elf : Str → ElfRead) (copies : List Copy) (vmas : List Vma) : Prop
    extends Loaded page elf copies vmas where
  backed : ∀ v ∈ vmas, v.isNamed = true → 0 < v.inode → ∃ f ∈ copies, f.file.IsOf v

/-- Code addresses of the file a Map was taken from translate back to link-time addresses.
That file is the one of the line the Map starts at. -/
def TranslatesBack (copies : List Copy) (vmas : List Vma) (m : Map) (p : PTLoad) : Prop :=
  ∀ w ∈ vmas, w.isNamed = true → w.start = m.start.toNat → ∀ f ∈ copies, f.file.IsOf w →
    ∀ v, f.IsText v → m.start ≤ f.bias + v → f.bias + v < m.end_ → addr2offset p (f.bias + v) = v

/-- So it is for every Map and its pt_load, whatever fails to load. -/
def TranslationRight (elf : Str → ElfRead) (copies : List Copy) (vmas : List Vma)
    (maps : List Map) : Prop :=
  ∀ (env : LoadEnv) (conf : Config), env.elf = elf →
    ∀ mo ∈ maps.zip (loadMapsLoop env conf 0 maps {}).2, ∀ p ∈ mo.2,
      TranslatesBack copies vmas mo.1 p

def Copy.HasTextIn (f : Copy) (r : Run Vma) : Prop :=
  ∃ v, f.IsText v ∧ r.first.start ≤ (f.bias + v).toNat ∧ (f.bias + v).toNat < r.last.end_

/-- The first executable PT_LOAD starts on a page, and the run opens with its line. -/
def Copy.OpensRun (page : Nat) (f : Copy) (r : Run Vma) : Prop :=
  ∃ e, f.file.phdrs.find? Phdr.execLoad = some e ∧ page ∣ e.pVaddr.toNat ∧
    r.first.start = f.segmentStart page e

def FirstTextOpens (page : Nat) (copies : List Copy) (vmas : List Vma) : Prop :=
  ∀ r ∈ inodeRuns vmas, r.first.isText = true → ∀ f ∈ copies, f.file.IsOf r.first →
    f.HasTextIn r → f.OpensRun page r

/-! ## Arithmetic -/

theorem addr2offset_iff (p : PTLoad) (bias v : ULong) :
    addr2offset p (bias + v) = v ↔ p.addrStart = bias + p.loadVaddr := by
  rw [addr2offset]
  constructor
  · intro translated
    bv_omega
  · intro start
    rw [start]
    bv_omega

theorem firstExecVaddr_eq (phdrs : List Phdr) :
    firstExecVaddr phdrs = match phdrs.find? Phdr.execLoad with
      | some e => e.pVaddr
      | none => 0 := by
  induction phdrs with
  | nil => rfl
  | cons ph phdrs ih =>
    rw [firstExecVaddr, List.find?_cons]
    cases ph.execLoad with
    | true => rfl
    | false => exact ih

theorem pageDown_eq {page a : Nat} (whole : page ∣ a) : pageDown page a = a :=
  Nat.div_mul_cancel whole

theorem dvd_biased {page : Nat} (pageSize : page ∣ 2 ^ 64) {bias : ULong}
    (biased : page ∣ bias.toNat) (v : ULong) : page ∣ (bias + v).toNat ↔ page ∣ v.toNat := by
  rw [BitVec.toNat_add, (Nat.dvd_mod_iff pageSize), Nat.dvd_add_right biased]

/-! ## Runs and their Maps -/

section Translation

variable {page : Nat} {elf : Str → ElfRead} {copies : List Copy} {vmas : List Vma}

theorem Copy.IsText.first {f : Copy} {v : ULong} (text : f.IsText v) :
    ∃ e, f.file.phdrs.find? Phdr.execLoad = some e := by
  obtain ⟨ph, member, exec, _⟩ := text
  exact Option.isSome_iff_exists.mp (List.find?_isSome.mpr ⟨ph, member, exec⟩)

theorem translatesBack_iff (image : Loaded page elf copies vmas) (stat : Str → Option Stat)
    (pid : Nat) {r : Run Vma} (member : r ∈ inodeRuns vmas) {p : PTLoad}
    (shape : p.shape = (mapOf stat pid r).shape elf) :
    TranslatesBack copies vmas (mapOf stat pid r) p ↔
      ∀ f ∈ copies, f.file.IsOf r.first → f.HasTextIn r → f.OpensRun page r := by
  obtain ⟨start, end_⟩ := mapOf_range stat pid r
  have first := run_named member _ r.first_mem
  have fields : p.addrStart = (mapOf stat pid r).start ∧
      p.loadVaddr = (checkShlib (elf r.first.path) 0).2 := by
    simp only [PTLoad.shape, Map.shape, Shape.mk.injEq] at shape
    exact ⟨shape.1, shape.2.2.2⟩
  have load (f : Copy) (hf : f ∈ copies) (file : f.file.IsOf r.first) :
      p.loadVaddr = firstExecVaddr f.file.phdrs := by
    rw [fields.2, image.headers f hf _ first.1 file]
    rfl
  constructor
  · intro back f hf file ⟨v, text, low, high⟩
    obtain ⟨e, found⟩ := text.first
    have translated := back r.first first.1 first.2 start.symm f hf file v text
      (by rw [BitVec.le_def, start]; exact low) (by rw [BitVec.lt_def, end_]; exact high)
    rw [addr2offset_iff, fields.1, load f hf file, firstExecVaddr_eq, found] at translated
    have opens : r.first.start = (f.bias + e.pVaddr).toNat := by
      rw [← start, translated]
    have whole : page ∣ e.pVaddr.toNat := by
      rw [← dvd_biased image.pageSize (image.biased f hf), ← opens]
      exact image.aligned _ first.1
    refine ⟨e, found, whole, ?_⟩
    rw [Copy.segmentStart, pageDown_eq, opens]
    exact (dvd_biased image.pageSize (image.biased f hf) _).mpr whole
  · intro opens w hw named starts f hf file v text low high
    obtain rfl : w = r.first := image.ascending.eq_of_lo hw first.1 (starts.trans start)
    rw [BitVec.le_def, start] at low
    rw [BitVec.lt_def, end_] at high
    obtain ⟨e, found, whole, opensAt⟩ := opens f hf file ⟨v, text, low, high⟩
    rw [Copy.segmentStart, pageDown_eq ((dvd_biased image.pageSize (image.biased f hf) _).mpr whole)]
      at opensAt
    rw [addr2offset_iff, fields.1, load f hf file, firstExecVaddr_eq, found]
    exact BitVec.eq_of_toNat_eq (start.trans opensAt)

theorem loaded_of_noParse (env : LoadEnv) (conf : Config) (noParse : conf.noParse = true)
    {maps : List Map} {m : Map} (member : m ∈ maps) :
    ∃ p, (m, some p) ∈ maps.zip (loadMapsLoop env conf 0 maps {}).2 := by
  have aligned := (loadMapsLoop_shapes env conf 0 maps {}).length_eq
  obtain ⟨i, inside, rfl⟩ := List.mem_iff_getElem.mp member
  have paired : (maps[i], (loadMapsLoop env conf 0 maps {}).2[i]) ∈
      maps.zip (loadMapsLoop env conf 0 maps {}).2 :=
    List.mem_iff_getElem.mpr ⟨i, by simp; omega, List.getElem_zip⟩
  obtain ⟨p, created⟩ := Option.isSome_iff_exists.mp
    (loadMapsLoop_noParse env conf noParse 0 maps {} _ (List.of_mem_zip paired).2)
  exact ⟨p, created ▸ paired⟩

end Translation

/-- Translation is right for an image exactly when every run that opens with program text
opens with the first executable segment, on a page boundary, of each copy with code in it. -/
theorem translation_right_iff (stat : Str → Option Stat) (pid : Nat) (junk : Next)
    (uninit : Locals) (page : Nat) (elf : Str → ElfRead) (copies : List Copy) (vmas : List Vma)
    (image : Image page elf copies vmas) (whole : ∀ v ∈ vmas, v.ReadWhole) :
    TranslationRight elf copies vmas
        (readMaps stat pid junk uninit (some (Vma.file vmas))) ↔
      FirstTextOpens page copies vmas := by
  rw [readMaps_file stat pid junk uninit image.ascending whole]
  constructor
  · intro right r hr text
    let env : LoadEnv := { bareEnv [] with elf := elf }
    have pushed : mapOf stat pid r ∈ ((inodeRuns vmas).filter opensText).map (mapOf stat pid) :=
      List.mem_map_of_mem (List.mem_filter.mpr ⟨hr, (opensText_iff hr).trans text⟩)
    obtain ⟨p, created⟩ := loaded_of_noParse env { noParse := true } rfl pushed
    have shape := List.forall₂_zip (loadMapsLoop_shapes env _ 0 _ {}) created p rfl
    exact (translatesBack_iff image.toLoaded stat pid hr shape).mp (right env _ rfl _ created p rfl)
  · rintro opens env conf rfl ⟨m, o⟩ member p created
    obtain ⟨r, hr, rfl⟩ := List.mem_map.mp (List.of_mem_zip member).1
    obtain ⟨hr, text⟩ := List.mem_filter.mp hr
    have shape := List.forall₂_zip (loadMapsLoop_shapes env conf 0 _ {}) member p created
    exact (translatesBack_iff image.toLoaded stat pid hr shape).mpr
      (opens r hr ((opensText_iff hr).symm.trans text))

/-- A library with one segment, executable, linked at the given address. -/
def textAt (vaddr : ULong) : Phdr where
  pType := ptLoadType
  pFlags := 5
  pOffset := vaddr
  pVaddr := vaddr
  pFilesz := 0x200
  pMemsz := 0x200

def libraryCopy (vaddr : ULong) : Copy where
  file := { major := 8, minor := 1, inode := 42, name := ['/', 'l'], phdrs := [textAt vaddr] }
  bias := 0x7f0000000000

theorem library_image (vaddr : ULong) (start : pageDown 0x1000 (0x7f0000000000 + vaddr).toNat =
    textLine.start) :
    Image 0x1000 (fun _ => .headers [textAt vaddr]) [libraryCopy vaddr] [textLine] where
  pageSize := by decide
  ascending := ⟨by decide, by decide⟩
  aligned := by decide
  biased := by simp [libraryCopy]
  congruent := by simp [libraryCopy, textAt]
  mapped := by
    intro f hf ph hph _ _
    obtain rfl := List.mem_singleton.mp hf
    obtain rfl := List.mem_singleton.mp hph
    exact ⟨textLine, by simp, ⟨rfl, rfl, rfl, rfl⟩, start.symm⟩
  backed := by
    intro v hv _ _
    obtain rfl := List.mem_singleton.mp hv
    exact ⟨_, List.mem_singleton_self _, rfl, rfl, rfl, rfl⟩
  headers := by
    intro f hf v _ _
    obtain rfl := List.mem_singleton.mp hf
    rfl

/-- Text linked at 0x1040 is mapped from 0x1000 on, and 0x1040 comes out as 0x1080. -/
theorem skewed_text_misplaced :
    Image 0x1000 (fun _ => .headers [textAt 0x1040]) [libraryCopy 0x1040] [textLine] ∧
      ¬ TranslationRight (fun _ => .headers [textAt 0x1040]) [libraryCopy 0x1040] [textLine]
        (readMaps (fun _ => none) 1 default default (some (Vma.file [textLine]))) := by
  refine ⟨library_image 0x1040 (by decide), fun right => ?_⟩
  rw [readMaps_file _ _ _ _ ⟨by decide, by decide⟩ (readWhole_of_fits_all (by decide))] at right
  have wrong := right (bareEnv [textAt 0x1040]) { noParse := true } rfl
    (⟨['/', 'l'], 0x7f0000001000, 0x7f0000002000, false⟩,
      some ⟨0x7f0000001000, 0x7f0000002000, false, none, 0x1040⟩) (by decide) _ rfl
    textLine (by simp) rfl rfl (libraryCopy 0x1040) (by simp) ⟨rfl, rfl, rfl, rfl⟩ 0x1040
    ⟨textAt 0x1040, List.mem_singleton_self _, by decide, by decide, by decide⟩
    (by decide) (by decide)
  exact absurd wrong (by decide)

/-- The program and the library of processLines, with the segments behind their text. -/
def dataAt (vaddr offset : ULong) : Phdr where
  pType := ptLoadType
  pFlags := 6
  pOffset := offset
  pVaddr := vaddr
  pFilesz := 0x100
  pMemsz := 0x300

def programPhdrs : List Phdr := [{ textAt 0x400000 with pOffset := 0 }, dataAt 0x601000 0x1000]

def libraryPhdrs : List Phdr := [textAt 0x1000, dataAt 0x201000 0x2000]

def processElf (path : Str) : ElfRead :=
  if path = ['/', 'p'] then .headers programPhdrs
  else if path = ['/', 'l'] then .headers libraryPhdrs
  else .noHeader

def processCopies : List Copy :=
  [⟨{ major := 8, minor := 1, inode := 7, name := ['/', 'p'], phdrs := programPhdrs }, 0⟩,
    ⟨{ major := 8, minor := 1, inode := 42, name := ['/', 'l'], phdrs := libraryPhdrs },
      0x7f0000000000⟩]

theorem process_loaded : Loaded 0x1000 processElf processCopies processLines where
  pageSize := by decide
  ascending := processLines_ascending
  aligned := by decide
  biased := by decide
  congruent := by decide
  mapped := by decide
  headers := by decide

theorem process_opens : FirstTextOpens 0x1000 processCopies processLines := by
  have both : inodeRuns processLines = [⟨programText, [programData]⟩, ⟨heapLine, []⟩,
      ⟨textLine, [libraryData]⟩] := by decide
  intro r hr text f hf file _
  rw [both, List.mem_cons, List.mem_cons, List.mem_singleton] at hr
  rw [processCopies, List.mem_cons, List.mem_singleton] at hf
  rcases hr with rfl | rfl | rfl
  · rcases hf with rfl | rfl
    · exact ⟨_, rfl, by decide, by decide⟩
    · exact absurd file (by decide)
  · exact absurd text (by decide)
  · rcases hf with rfl | rfl
    · exact absurd file (by decide)
    · exact ⟨_, rfl, by decide, by decide⟩

theorem aligned_text_translated :
    TranslationRight processElf processCopies processLines
      (readMaps programStat 1 default default (some (Vma.file processLines))) := by
  have image : Image 0x1000 processElf processCopies processLines :=
    { process_loaded with backed := by decide }
  refine (translation_right_iff _ _ _ _ _ _ _ _ image (readWhole_of_fits_all (by decide))).mpr ?_
  exact process_opens

end Obstack
