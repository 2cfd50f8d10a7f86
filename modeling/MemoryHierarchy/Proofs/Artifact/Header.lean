import Mathlib.Algebra.Group.Nat.Defs
import MemoryHierarchy.Proofs.Artifact.Wiring
import MemoryHierarchy.Proofs.Configuration.Malformed

/-!
# Sizes in the header

The header gives the sizes of blocks and of pages, each beside its logarithm. Any natural number is
taken for a size, and nothing on the way to the header asks for a power of two: the logarithm is
rounded down, so that the two agree just in case the size is a power of two.
-/

namespace MemoryHierarchy

/-! ## Logarithms

What is rounded down is pinned between two powers of two; only the size zero has no logarithm, and
is given zero. -/

/-- The logarithm of a size, rounded down; that of nothing is zero. The definition says which number
it is and not how it is found. -/
def IsFloorLog (size logarithm : Nat) : Prop :=
  if size = 0 then logarithm = 0 else 2 ^ logarithm ≤ size ∧ size < 2 ^ (logarithm + 1)

theorem isFloorLog_log2 (size : Nat) : IsFloorLog size size.log2 := by
  unfold IsFloorLog
  split
  · next hzero =>
    rw [hzero]
    rfl
  · next hne => exact ⟨Nat.log2_self_le hne, Nat.lt_log2_self⟩

theorem eq_two_pow_log2_iff {size : Nat} : size = 2 ^ size.log2 ↔ size.isPowerOfTwo := by
  constructor
  · exact fun h => ⟨size.log2, h⟩
  · rintro ⟨k, rfl⟩
    rw [Nat.log2_two_pow]

/-! ## The constants of a header

A header gives each constant on a line. That no other line gives a value to the same name is part of
what it means to give a constant, and follows from the list of the names alone. -/

namespace Header

open HeaderConstant

/-- The constants that a header gives. -/
def constants (m : Model) : List HeaderConstant :=
  ofConstants m.constants ++ ofMemory m.physicalMemory

/-- A constant that a header gives, with nothing else under its name. -/
structure Gives (m : Model) (c : HeaderConstant) : Prop where
  line : c.line ∈ lines m
  unique : ∀ other ∈ constants m, other.name = c.name → other = c

variable {m : Model} {c : HeaderConstant}

theorem line_mem_lines (hc : c ∈ constants m) : c.line ∈ lines m := by
  rcases List.mem_append.mp hc with hsystem | hmemory
  · have hline := List.mem_map_of_mem (f := HeaderConstant.line) hsystem
    simp [lines, hline]
  · have hline := List.mem_map_of_mem (f := HeaderConstant.line) hmemory
    simp [lines, hline]

theorem nodup_names_constants (m : Model) : ((constants m).map HeaderConstant.name).Nodup := by
  show ["BLOCK_SIZE", "PAGE_SIZE", "STAT_PRINTING_PERIOD", "NUM_CPUS", "LOG2_BLOCK_SIZE",
    "LOG2_PAGE_SIZE", "DRAM_IO_FREQ", "DRAM_CHANNELS", "DRAM_RANKS", "DRAM_BANKGROUPS",
    "DRAM_BANKS", "DRAM_ROWS", "DRAM_COLUMNS", "DRAM_CHANNEL_WIDTH", "DRAM_WQ_SIZE",
    "DRAM_RQ_SIZE"].Nodup
  decide

theorem gives_of_mem (hc : c ∈ constants m) : Gives m c :=
  ⟨line_mem_lines hc, fun _ hother hname =>
    List.inj_on_of_nodup_map (nodup_names_constants m) hother hc hname⟩

/-- What a header says of a size. It has a line for the size and one for its logarithm, neither of
which is contradicted elsewhere, and shifting by the logarithm gives the size back for powers of two
only. -/
structure GivesSize (m : Model) (name : String) (value : Nat) : Prop where
  size : Gives m (.size name value)
  logarithm : ∃ l, Gives m (.logarithm ("LOG2_" ++ name) l) ∧ IsFloorLog value l ∧
    (value = 2 ^ l ↔ value.isPowerOfTwo)

theorem givesSize_of_mem {name : String} {value : Nat}
    (hsize : HeaderConstant.size name value ∈ constants m)
    (hlogarithm : HeaderConstant.logarithm ("LOG2_" ++ name) value.log2 ∈ constants m) :
    GivesSize m name value :=
  ⟨gives_of_mem hsize, value.log2, gives_of_mem hlogarithm, isFloorLog_log2 value,
    eq_two_pow_log2_iff⟩

/-- A model of a root has the sizes of the root. -/
theorem givesSize_of_constants {root : Document} {count : Nat}
    (hm : m.constants = Constants.ofRoot root count) :
    GivesSize m "BLOCK_SIZE" ((root.natural? "block_size").getD Template.blockSize) ∧
      GivesSize m "PAGE_SIZE" ((root.natural? "page_size").getD Template.pageSize) := by
  constructor
  · apply givesSize_of_mem <;> simp [constants, ofConstants, hm, Constants.ofRoot]
  · apply givesSize_of_mem <;> simp [constants, ofConstants, hm, Constants.ofRoot]

end Header

theorem Artifacts.constants_of_ofModel {m : Model} {artifacts : Artifacts}
    (htexts : ofModel m = .ok artifacts) : artifacts.constants = textOfLines (Header.lines m) := by
  obtain ⟨_, rfl⟩ := ofModel_eq_ok_iff.mp htexts
  rfl

/-! ## Sizes of documents

A size goes from the first document that has the key through the merge into the root, which keeps
it, and from there over the default. Nothing on that way looks at the value again. -/

namespace NormalizedConfiguration

/-- The size that layered documents give under a key: the first document with the key gives it.
Documents are merged so that earlier ones win, and a size that nobody gives has a default. -/
def sizeAskedFor (docs : List Document) (key : String) (default : Nat) : Nat :=
  ((docs.find? fun doc => doc.contains key).bind fun doc => doc.natural? key).getD default

theorem get?_root_of_ofDocument {doc : Document} {n : NormalizedConfiguration}
    (hread : ofDocument doc = .ok n) {key : String} (hother : key ∉ directoryKeys) :
    n.root.get? key = if key ∈ rootKeys then doc.get? key else none := by
  simp only [ofDocument, rootOf, bind_eq_ok_iff, pure_eq_ok_iff] at hread
  obtain ⟨_, _, _, _, _, _, _, _, _, _, _, ⟨directories, hdirectories, _, _, rfl⟩, _, _, _, _,
    rfl⟩ := hread
  exact get?_root doc hdirectories hother

/-- The size of a root with defaults is the one that the documents give. -/
theorem size_resolvedRoot {docs : List Document} {n : NormalizedConfiguration}
    (hread : ofDocuments docs = .ok n) {key : String} (hkey : key ∈ sizeKeys) {default : Nat}
    (hdefault : Template.root.natural? key = some default) :
    (n.resolvedRoot.natural? key).getD default = sizeAskedFor docs key default := by
  have hkeys : ∀ key ∈ sizeKeys, "caches" ≠ key ∧ "ptws" ≠ key ∧ layerRules key = none ∧
      key ∈ rootKeys ∧ key ∉ directoryKeys := by decide
  obtain ⟨hcaches, hwalkers, hrule, hroot, hother⟩ := hkeys key hkey
  obtain ⟨merged, hmerged, hread⟩ := exists_merged_of_ofDocuments hread
  -- the root has what the merge of the documents has
  have hget : n.root.get? key = (Document.mergeAllWith layerRules docs).get? key := by
    rw [get?_root_of_ofDocument hread hother, if_pos hroot, hmerged key hcaches hwalkers]
  have hasked : sizeAskedFor docs key default = (n.root.natural? key).getD default := by
    rw [sizeAskedFor, ← Document.natural?_mergeAllWith hrule, Document.natural?, ← hget]
    rfl
  rw [hasked, resolvedRoot, Document.mergeAll, Document.natural?_mergeAllWith rfl,
    List.find?_cons]
  -- the default counts only where no document has the key
  cases hcontains : n.root.contains key with
  | true => rfl
  | false =>
    have hnone : n.root.natural? key = none := by
      rw [Document.natural?, Document.contains_eq_false_iff.mp hcontains]
      rfl
    rw [hnone]
    simp [Document.contains_of_natural? hdefault, hdefault]

end NormalizedConfiguration

open NormalizedConfiguration in
/-- **The header gives the sizes of the documents and their logarithms, rounded down.** A size is
the power of two that its logarithm says just in case it is a power of two at all. -/
theorem givesSize_of_emit {docs : List Document} {n : NormalizedConfiguration}
    (hread : ofDocuments docs = .ok n) (options : Options) (lookups : ModuleLookups)
    {artifacts : Artifacts}
    (hemit : (n.resolve options lookups).configuration.emit = .ok artifacts) :
    ∃ m, Model.ofResolved (n.resolve options lookups).configuration = .ok m ∧
      artifacts.constants = textOfLines (Header.lines m) ∧
      Header.GivesSize m "BLOCK_SIZE" (sizeAskedFor docs "block_size" 64) ∧
      Header.GivesSize m "PAGE_SIZE" (sizeAskedFor docs "page_size" 4096) := by
  obtain ⟨m, hmodel, htexts⟩ := ResolvedConfiguration.exists_ofModel_of_emit hemit
  have hconstants : m.constants = Constants.ofRoot n.resolvedRoot n.cores.length :=
    Model.constants_of_ofResolved hmodel
  obtain ⟨hblock, hpage⟩ := Header.givesSize_of_constants hconstants
  rw [size_resolvedRoot hread (by decide) (by decide)] at hblock hpage
  exact ⟨m, hmodel, Artifacts.constants_of_ofModel htexts, hblock, hpage⟩

/-- Two documents that give sizes of their own: the first one decides about blocks, and the second
one, where the first is silent, about pages. -/
def layeredSizes : List Document :=
  [[("block_size", .ofNat 48)], [("block_size", .ofNat 128), ("page_size", .ofNat 8192)]]

open NormalizedConfiguration in
/-- The header gives the sizes of the documents, of which the first is no power of two. -/
theorem givesSize_of_layeredSizes :
    ∃ n artifacts m, ofDocuments layeredSizes = .ok n ∧
      (n.resolve {} .nothing).configuration.emit = .ok artifacts ∧
      artifacts.constants = textOfLines (Header.lines m) ∧
      Header.GivesSize m "BLOCK_SIZE" 48 ∧ Header.GivesSize m "PAGE_SIZE" 8192 := by
  have hcomputed : ∃ n, ofDocuments layeredSizes = .ok n ∧
      ∃ artifacts, (n.resolve {} .nothing).configuration.emit = .ok artifacts := by
    simp -zeta only [resolve_eq_sorting, ResolvedConfiguration.emit_eq_sorting]
    decide +kernel
  obtain ⟨n, hread, artifacts, hemit⟩ := hcomputed
  obtain ⟨m, _, htext, hblock, hpage⟩ := givesSize_of_emit hread {} .nothing hemit
  exact ⟨n, artifacts, m, hread, hemit, htext, hblock, hpage⟩

/-- One core with defaults, and blocks whose size is no power of two. Nothing refuses them: the
header then has a logarithm that is rounded down. -/
def oddBlocks : List Document := [[("block_size", .ofNat 48)]]

open NormalizedConfiguration in
/-- The logarithm in the header is that of a smaller size. -/
theorem not_eq_two_pow_of_oddBlocks :
    ∃ n artifacts m, ofDocuments oddBlocks = .ok n ∧
      (n.resolve {} .nothing).configuration.emit = .ok artifacts ∧
      artifacts.constants = textOfLines (Header.lines m) ∧
      ∃ size logarithm, Header.Gives m (.size "BLOCK_SIZE" size) ∧
        Header.Gives m (.logarithm "LOG2_BLOCK_SIZE" logarithm) ∧ size ≠ 2 ^ logarithm := by
  have hcomputed : ∃ n, ofDocuments oddBlocks = .ok n ∧
      n.constants.blockSize = 48 ∧ n.constants.log2BlockSize = 5 ∧
      ∃ artifacts, (n.resolve {} .nothing).configuration.emit = .ok artifacts := by
    simp -zeta only [resolve_eq_sorting, ResolvedConfiguration.emit_eq_sorting]
    decide +kernel
  obtain ⟨n, hread, hsize, hlogarithm, artifacts, hemit⟩ := hcomputed
  -- the model takes its constants over from the configuration
  obtain ⟨m, hmodel, htexts⟩ := ResolvedConfiguration.exists_ofModel_of_emit hemit
  have hconstants : m.constants = n.constants := Model.constants_of_ofResolved hmodel
  refine ⟨n, artifacts, m, hread, hemit, Artifacts.constants_of_ofModel htexts, 48, 5, ?_, ?_,
    by decide⟩
  · apply Header.gives_of_mem
    simp [Header.constants, HeaderConstant.ofConstants, hconstants, hsize]
  · apply Header.gives_of_mem
    simp [Header.constants, HeaderConstant.ofConstants, hconstants, hlogarithm]

end MemoryHierarchy
