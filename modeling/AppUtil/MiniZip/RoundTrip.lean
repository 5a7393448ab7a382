import AppUtil.MiniZip.Codec
import AppUtil.MiniZip.Inflating
import AppUtil.MiniZip.Misled

/-! # From the archive back to the files

What `UnCompress` is given of an archive that `Compress` wrote: the files with their names and contents, as
far as the end of the archive tells how many there are. -/
namespace AppUtil.MiniZip
open AppUtil.Lib
open AppUtil.Zip (Bytes zipOk Entry UnzEntry UnzFile buffers)
set_option autoImplicit false

/-- How the loop of `UnCompress` sees an entry. -/
def asRead (e : Entry) : UnzEntry := ⟨e.name, [], (buffers e.contents).filter (· ≠ []), false⟩

/-- A file under its name in the archive. -/
def Source.entry (src : Source) : Entry := ⟨pathOf src.filename, src.contents⟩

variable {δ ι : Type} {Z : Zlib δ ι}

section Entries
variable {done rest : List Item} {it : Item} {s : Unz ι} {src : Source}

/-- A source whose name fits into the buffer of `UnCompress`, and whose size into the counters of zlib. -/
structure Source.Short (src : Source) : Prop where
  filename : src.filename.length < Zip.maxPath
  contents : src.contents.length < 2 ^ 32

theorem fits_of_becomes (h : Ordinary (done ++ it :: rest)) (hit : BecomesItem Z src it) (hsrc : src.Short) :
    it.Fits (localParts done).length := by
  obtain ⟨text, c, -, rfl⟩ := hit
  have hname : src.filename.length < 260 := hsrc.filename
  have hsize := hsrc.contents
  exact fits_of_ordinary h (show src.filename.length < 2 ^ 16 by omega)
    (show src.contents.length < 2 ^ 64 by omega)

/-- The data of the current file is behind its local header. -/
theorem unzOpenCurrentFile_spec {c : Bytes} {text : Bool} (h : Ordinary (done ++ it :: rest))
    (hs : AtEntry s done it rest) (hfit : it.Fits (localParts done).length)
    (hcrc : Z.crc32 0 src.contents < 2 ^ 32)
    (hit : it = newItem src.filename src.zipfi (-1) text (Z.crc32 0 src.contents) c src.contents.length)
    (hnil : Z.crc32 0 [] = 0) :
    ∃ p : ReadInfo ι, unzOpenCurrentFile Z s = (unzOk, { s with pfileInZipRead := some p }) ∧
      Delivering Z { s with pfileInZipRead := some p } src.contents c p [] [] ∧
      p.crc32Wait = Z.crc32 0 src.contents ∧ p.pending = c.length := by
  obtain ⟨tail, hlocal⟩ := seekSet_local h rfl hs.file hs.byteBefore
  rw [← hs.offset] at hlocal
  have hcheck : checkCurrentFileCoherencyHeader s = some (it.filename.length + 20) :=
    checkCurrentFileCoherencyHeader_eq hfit hlocal hs.info
  have hclosed : (unzCloseCurrentFile s).2 = s := by
    rw [unzCloseCurrentFile, hs.closed]
  have hwait : s.curFileInfo.crc = Z.crc32 0 src.contents := by
    rw [hs.info, hit]
    exact stored_of_lt hcrc
  have husize : s.curFileInfo.uncompressedSize = src.contents.length := by
    rw [hs.info, hit]
    rfl
  have hcsize : s.curFileInfo.compressedSize = c.length := by
    rw [hs.info, hit]
    rfl
  have hmethod : s.curFileInfo.compressionMethod = zDeflated := by
    rw [hs.info]
    rfl
  have hraw : (false || decide (s.curFileInfo.compressionMethod = zBzip2ed)) = false := by
    rw [hmethod]
    decide
  refine ⟨newReadInfo Z s false (it.filename.length + 20), ?_,
    ⟨.init, List.nil_prefix, hmethod, hraw, hnil.symm, rfl, ?_, ?_⟩, hwait, ?_⟩
  · rw [unzOpenCurrentFile, unzOpenCurrentFile3, if_neg (by rw [hs.ok]; decide), hclosed]
    simp only [hcheck]
  · exact husize
  · -- the head of the entry, and what is before it
    have hdata : it.data = c := by rw [hit]; rfl
    refine ⟨localParts done ++ (it.localHeader.bytes ++ it.localExtra), c,
      localParts rest ++ (archive (done ++ it :: rest)).drop (localParts (done ++ it :: rest)).length, ?_, ?_,
      hcsize.symm, rfl⟩
    · show s.file = _
      rw [hs.file]
      conv_lhs => rw [← List.take_append_drop (localParts (done ++ it :: rest)).length (archive (done ++ it :: rest))]
      rw [show (archive (done ++ it :: rest)).take (localParts (done ++ it :: rest)).length =
        localParts (done ++ it :: rest) from List.take_left, localParts_append, localParts_cons, Item.localPart, hdata]
      simp only [List.append_assoc]
    · rw [List.length_append, List.length_append, LocalHeader.length_bytes, Item.length_localExtra, ← hs.offset]
      show _ = s.offsetCurfile + sizeZipLocalHeader + (it.filename.length + 20)
      have hname : it.localHeader.filename.length = it.filename.length := rfl
      rw [hname, sizeZipLocalHeader]
      omega
  · show 0 + s.curFileInfo.compressedSize = c.length
    rw [hcsize, Nat.zero_add]

/-- The checksum is right when all of the file was delivered. -/
theorem unzCloseCurrentFile_spec {x c taken : Bytes} {p : ReadInfo ι} (hopen : s.pfileInZipRead = some p)
    (h : Delivering Z s x c p taken x) (hwait : p.crc32Wait = Z.crc32 0 x) :
    unzCloseCurrentFile s = (unzOk, { s with pfileInZipRead := none }) := by
  have hsame : ¬ (p.restReadUncompressed = 0 ∧ p.raw = false ∧ p.crc32 ≠ p.crc32Wait) := by
    intro hcheck
    exact hcheck.2.2 (h.crc32.trans hwait.symm)
  rw [unzCloseCurrentFile, hopen]
  show (if _ then _ else _, _) = _
  rw [if_neg hsame]

/-- Fuel for the loops that read an entry. -/
def Item.Fuel (it : Item) (fuel : ℕ) : Prop := it.data.length + 2 ≤ fuel ∧ it.uncompressedSize < fuel

/-- All of the entry is delivered. -/
theorem readEntry_spec (hZ : Z.Documented) (fuel : ℕ) (h : Ordinary (done ++ it :: rest)) (hs : AtEntry s done it rest)
    (hit : BecomesItem Z src it) (hsrc : src.Short) (hfuel : it.Fuel fuel) :
    readEntry Z fuel s = some (asRead src.entry, s.unzGoToNextFile.2) := by
  have hfit := fits_of_becomes h hit hsrc
  obtain ⟨text, c, hdeflated, hitem⟩ := hit
  have hdata : it.data = c := by rw [hitem]; rfl
  have hrounds : src.contents.length < fuel := by
    have husize : it.uncompressedSize = src.contents.length := by rw [hitem]; rfl
    rw [← husize]
    exact hfuel.2
  have hcrc : Z.crc32 0 src.contents < 2 ^ 32 := hZ.crc32_lt 0 src.contents (by decide)
  obtain ⟨tail, hcentral⟩ := seekSet_central h rfl hs.file hs.byteBefore
  rw [← hs.pos] at hcentral
  have hname : s.szFileName Zip.maxPath = src.filename := by
    rw [szFileName_eq hfit hcentral, hitem]
    exact List.take_of_length_le (Nat.le_of_lt hsrc.filename)
  obtain ⟨p, hopen, hdelivering, hwait, hpending⟩ :=
    unzOpenCurrentFile_spec h hs hfit hcrc hitem (hZ.crc32_nil 0)
  have hfile : s.file.length < 2 ^ 63 := by
    rw [hs.file]
    exact h.length
  obtain ⟨p', taken', hloop, hend, hwait'⟩ := readBuffers_spec hZ hdeflated hsrc.contents fuel fuel
    (s := { s with pfileInZipRead := some p }) hs.byteBefore hfile rfl hdelivering
    (by rw [hpending, ← hdata]; exact hfuel.1)
    (by rw [List.length_nil, List.drop_zero]; exact hrounds)
  rw [List.length_nil, List.drop_zero] at hloop
  have hclose := unzCloseCurrentFile_spec (s := { s with pfileInZipRead := some p' }) rfl (hend.of_file rfl)
    (hwait'.trans hwait)
  have hclosed : { s with pfileInZipRead := none } = s := by
    rw [← hs.closed]
  rw [readEntry, hname, hopen]
  show (readBuffers Z fuel fuel { s with pfileInZipRead := some p } >>= _) = _
  rw [hloop]
  show some (_, (unzCloseCurrentFile { s with pfileInZipRead := some p' }).2.unzGoToNextFile.2) = _
  rw [hclose]
  show some (_, (Unz.unzGoToNextFile { s with pfileInZipRead := none }).2) = _
  rw [hclosed]
  rfl

theorem readEntries_succ {fuel n : ℕ} {s s' : Unz ι} {e : UnzEntry} {es : List UnzEntry}
    (hentry : readEntry Z fuel s = some (e, s')) (hrest : readEntries Z fuel n s' = some es) :
    readEntries Z fuel (n + 1) s = some (e :: es) := by
  rw [readEntries, hentry]
  show (readEntries Z fuel n s' >>= _) = _
  rw [hrest]
  rfl

theorem length_entriesFound_le (items : List Item) : entriesFound items ≤ items.length := by
  unfold entriesFound
  split <;> omega

/-- The entries from the current file on, as many as were found. -/
theorem readEntries_spec (hZ : Z.Documented) (fuel n : ℕ) {s : Unz ι} {done rest : List Item} {it : Item} {src : Source}
    {srcs : List Source} (h : Ordinary (done ++ it :: rest)) (hs : AtEntry s done it rest)
    (hitems : List.Forall₂ (BecomesItem Z) (src :: srcs) (it :: rest)) (hsrcs : ∀ src' ∈ src :: srcs, src'.Short)
    (hfuel : ∀ it' ∈ it :: rest, it'.Fuel fuel) (hn : done.length + (n + 1) = entriesFound (done ++ it :: rest)) :
    readEntries Z fuel (n + 1) s = some (((src :: srcs).take (n + 1)).map fun src' => asRead src'.entry) := by
  induction n generalizing s done rest it src srcs with
  | zero =>
    obtain ⟨hit, -⟩ := List.forall₂_cons.mp hitems
    have hentry := readEntry_spec hZ fuel h hs hit (hsrcs src (List.mem_cons_self ..))
      (hfuel it (List.mem_cons_self ..))
    exact readEntries_succ hentry rfl
  | succ n ih =>
    obtain ⟨hit, hrest⟩ := List.forall₂_cons.mp hitems
    have hsrc := hsrcs src (List.mem_cons_self ..)
    have hentry := readEntry_spec hZ fuel h hs hit hsrc (hfuel it (List.mem_cons_self ..))
    have hle := length_entriesFound_le (done ++ it :: rest)
    rw [List.length_append, List.length_cons] at hle
    -- there is a next one
    cases hrest with
    | nil =>
      rw [List.length_nil] at hle
      omega
    | @cons src' it' srcs' rest' hit' hrest' =>
      have hsplit : done ++ it :: it' :: rest' = done ++ [it] ++ it' :: rest' := by
        rw [List.append_assoc, List.singleton_append]
      have h' : Ordinary (done ++ [it] ++ it' :: rest') := hsplit ▸ h
      have hsrc' := hsrcs src' (List.mem_cons_of_mem src (List.mem_cons_self ..))
      have hnext := unzGoToNextFile_spec h hs (fits_of_becomes h hit hsrc) (fits_of_becomes h' hit' hsrc')
        (.inr (by rw [hs.numberEntry]; omega))
      apply readEntries_succ hentry
      apply ih h' hnext (.cons hit' hrest') (fun src'' hmem => hsrcs src'' (List.mem_cons_of_mem src hmem))
        (fun it'' hmem => hfuel it'' (List.mem_cons_of_mem it hmem))
      rw [← hsplit, ← hn, List.length_append, List.length_singleton]
      omega

/-- What was packed is what is unpacked, up to the number of entries that the end of the archive tells. -/
theorem unzFile_archive (hZ : Z.Documented) (fuel : ℕ) {sources : List Source} {items : List Item}
    (hitems : List.Forall₂ (BecomesItem Z) sources items) (h : Ordinary items) (hne : items ≠ [])
    (hend : ¬ Misleading items) (hsources : ∀ src ∈ sources, src.Short) (hfuel : ∀ it ∈ items, it.Fuel fuel) :
    unzFile Z fuel (archive items) =
      some (some ⟨true, (sources.take (entriesFound items)).map fun src => asRead src.entry⟩) := by
  cases hitems with
  | nil => exact absurd rfl hne
  | @cons src it sources' rest hit hrest =>
    have hfit : it.Fits (localParts []).length := fits_of_becomes h hit (hsources src (List.mem_cons_self ..))
    have hfirst := unzGoToFirstFile_spec (ι := ι) h hfit
    have hpos : 0 < entriesFound (it :: rest) := by
      unfold entriesFound
      rw [List.length_cons]
      split <;> omega
    obtain ⟨n, hn⟩ : ∃ n, entriesFound (it :: rest) = n + 1 := ⟨entriesFound (it :: rest) - 1, by omega⟩
    have hread := readEntries_spec hZ fuel n h hfirst (.cons hit hrest) hsources hfuel (by
      rw [List.length_nil, Nat.zero_add]
      exact hn.symm)
    rw [unzFile, unzOpen64_archive ι h hne hend]
    show (readEntries Z fuel (Unz.unzGoToFirstFile (openedUnz ι (it :: rest))).2.numberEntry _).map _ = _
    rw [hfirst.numberEntry, List.nil_append, hn, hread]
    rfl

end Entries

/-! ## `Compress` and `UnCompress` -/

/-- `unzOpen64` finds of what `Compress` wrote all files, or the first 65535 when the directory begins below
4 GiB, with their names and contents. -/
theorem unzFile_packFiles (hZ : Z.Documented) (fuel : ℕ) (sources : List Source) (hsources : ∀ src ∈ sources, src.Short)
    (hfuel : ∀ src ∈ sources, Z.deflateBound src.contents.length + 2 ≤ fuel) :
    ∃ items, packFiles Z fuel sources = some (zipOk, archive items) ∧ List.Forall₂ (BecomesItem Z) sources items ∧
      (sources ≠ [] → Ordinary items → ¬ Misleading items → ∀ fuel', (∀ it ∈ items, it.Fuel fuel') →
        unzFile Z fuel' (archive items) =
          some (some ⟨true, (sources.take (entriesFound items)).map fun src => asRead src.entry⟩)) := by
  obtain ⟨items, hpack, hitems⟩ := packFiles_spec fuel hZ sources (fun src hsrc => (hsources src hsrc).contents) hfuel
  refine ⟨items, hpack, hitems, fun hne h hend fuel' hfuel' => ?_⟩
  apply unzFile_archive hZ fuel' hitems h ?_ hend hsources hfuel'
  intro hnil
  rw [hnil] at hitems
  exact hne (List.forall₂_nil_right_iff.mp hitems)

/-- A file `b` that holds `hi`, and a file `a/c` of three bytes. -/
def samples : List Source := [
  ⟨[0x62], ⟨⟨0, 0, 0, 1, 0, 2000⟩, 0, 0, 0⟩, [0x68, 0x69]⟩,
  ⟨[0x61, 0x2f, 0x63], ⟨⟨58, 59, 23, 31, 11, 2011⟩, 0, 0, 32⟩, [1, 2, 3]⟩]

theorem short_samples : ∀ src ∈ samples, src.Short := by
  intro src hsrc
  simp only [samples, List.mem_cons, List.not_mem_nil, or_false] at hsrc
  rcases hsrc with rfl | rfl
  · exact ⟨by decide, by decide⟩
  · exact ⟨by decide, by decide⟩

theorem fuel_samples : ∀ src ∈ samples, codec.deflateBound src.contents.length + 2 ≤ 10 := by decide

/-- Their entries, with what zlib makes of the contents. -/
def sampleItems (text text' : Bool) : List Item := [
  newItem [0x62] ⟨⟨0, 0, 0, 1, 0, 2000⟩, 0, 0, 0⟩ (-1) text (codec.crc32 0 [0x68, 0x69]) [203, 200, 4, 0] 2,
  newItem [0x61, 0x2f, 0x63] ⟨⟨58, 59, 23, 31, 11, 2011⟩, 0, 0, 32⟩ (-1) text' (codec.crc32 0 [1, 2, 3])
    [99, 100, 98, 6, 0] 3]

theorem becomes_samples {items : List Item} (h : List.Forall₂ (BecomesItem codec) samples items) :
    ∃ text text', items = sampleItems text text' := by
  obtain ⟨it, rest, ⟨text, c, hdeflated, rfl⟩, hrest, rfl⟩ := List.forall₂_cons_left_iff.mp h
  obtain ⟨it', rest', ⟨text', c', hdeflated', rfl⟩, hrest', rfl⟩ := List.forall₂_cons_left_iff.mp hrest
  have hhi : encode [0x68, 0x69] = [203, 200, 4, 0] := by decide +kernel
  have hbytes : encode [1, 2, 3] = [99, 100, 98, 6, 0] := by decide +kernel
  rw [List.forall₂_nil_left_iff.mp hrest', codec_deflated hdeflated, codec_deflated hdeflated', hhi, hbytes]
  exact ⟨text, text', rfl⟩

theorem length_archive_samples (text text' : Bool) : (archive (sampleItems text text')).length = 231 := by
  cases text <;> cases text' <;> decide +kernel

theorem ordinary_samples (text text' : Bool) : Ordinary (sampleItems text text') := by
  have hnowhere : ∀ p < 231, ¬ StandsAt locatorSignature (archive (sampleItems text text')) p := by
    cases text <;> cases text' <;> decide +kernel
  have hlen := length_archive_samples text text'
  refine ⟨by rw [hlen]; decide, by cases text <;> cases text' <;> decide +kernel, fun _ p hp => ?_⟩
  have hle := hp.1.le_length (by decide)
  have hfour : locatorSignature.length = 4 := rfl
  exact hnowhere p (by omega) hp.1

theorem small_samples (text text' : Bool) : (localParts (sampleItems text text')).length < invalidValue := by
  cases text <;> cases text' <;> decide +kernel

theorem unzFile_packFiles_samples : ∃ file, packFiles codec 10 samples = some (zipOk, file) ∧
    unzFile codec 10 file = some (some ⟨true, samples.map fun src => asRead src.entry⟩) := by
  obtain ⟨items, hpack, hitems, hread⟩ := unzFile_packFiles documented_codec 10 samples short_samples fuel_samples
  obtain ⟨text, text', rfl⟩ := becomes_samples hitems
  have hfound : entriesFound (sampleItems text text') = 2 := by cases text <;> cases text' <;> decide +kernel
  have hend : ¬ Misleading (sampleItems text text') := by
    rw [misleading_iff (ordinary_samples text text') (small_samples text text')]
    cases text <;> cases text' <;> decide +kernel
  have hfuel : ∀ it ∈ sampleItems text text', it.data.length + 2 ≤ 10 ∧ it.uncompressedSize < 10 := by
    cases text <;> cases text' <;> decide
  rw [hfound] at hread
  exact ⟨_, hpack, hread (List.cons_ne_nil _ _) (ordinary_samples text text') hend 10 hfuel⟩

theorem length_readEntries {fuel n : ℕ} {s : Unz ι} {entries : List UnzEntry}
    (h : readEntries Z fuel n s = some entries) : entries.length = n := by
  induction n generalizing s entries with
  | zero =>
    cases h
    rfl
  | succ n ih =>
    obtain ⟨⟨e, s'⟩, -, hrest⟩ := Option.bind_eq_some_iff.mp h
    obtain ⟨entries', hentries, heq⟩ := Option.bind_eq_some_iff.mp hrest
    cases heq
    rw [List.length_cons, ih hentries]

theorem unzFile_eq_none_iff {fuel : ℕ} {file : Bytes} :
    unzFile Z fuel file = some none ↔ unzOpen64 file = (none : Option (Unz ι)) := by
  unfold unzFile
  cases unzOpen64 file with
  | none => exact ⟨fun _ => rfl, fun _ => rfl⟩
  | some s =>
    constructor
    · intro hread
      obtain ⟨entries, -, hentries⟩ := Option.map_eq_some_iff.mp hread
      cases hentries
    · intro hnone
      cases hnone

theorem unzFile_eq_nil_iff {fuel : ℕ} {file : Bytes} :
    unzFile Z fuel file = some (some ⟨true, []⟩) ↔ ∃ s : Unz ι, unzOpen64 file = some s ∧ s.numberEntry = 0 := by
  unfold unzFile
  cases unzOpen64 file with
  | none =>
    constructor
    · intro hread
      cases hread
    · intro hopen
      obtain ⟨s, hs, -⟩ := hopen
      cases hs
  | some s =>
    constructor
    · intro hread
      obtain ⟨entries, hentries, heq⟩ := Option.map_eq_some_iff.mp hread
      cases heq
      exact ⟨s, rfl, (length_readEntries hentries).symm⟩
    · intro hopen
      obtain ⟨s', hs, hzero⟩ := hopen
      cases hs
      show (readEntries Z fuel s.numberEntry s).map _ = _
      rw [hzero]
      rfl

/-- What becomes of an archive that begins its directory within four bytes. -/
theorem unzOpen64_small (ι : Type) {items : List Item} (h : Ordinary items)
    (hsmall : (localParts items).length < invalidValue) :
    (unzOpen64 (archive items) = (none : Option (Unz ι)) ↔
      items = [] ∨ endSignature <:+: endNumbers items ∧ (localParts items).length ≠ endSignatureOffset) ∧
    ((∃ s : Unz ι, unzOpen64 (archive items) = some s ∧ s.numberEntry = 0) ↔
      (localParts items).length = endSignatureOffset) := by
  rw [← misleading_iff h hsmall]
  by_cases hnil : items = []
  · have hzero : (localParts items).length = 0 := by
      rw [hnil]
      rfl
    have hnone : unzOpen64 (archive items) = (none : Option (Unz ι)) := by
      rw [hnil]
      exact unzOpen64_nil ι
    rw [hnone, hzero]
    refine ⟨⟨fun _ => .inl hnil, fun _ => rfl⟩, ?_⟩
    constructor
    · rintro ⟨s, hs, -⟩
      cases hs
    · intro heq
      exact absurd heq (by decide)
  · by_cases hend : Misleading items
    · obtain ⟨hnone, hsome⟩ := unzOpen64_misled ι h hsmall hnil hend
      by_cases hsignature : (localParts items).length = endSignatureOffset
      · obtain ⟨s, hs, hzero⟩ := hsome hsignature
        rw [hs]
        refine ⟨⟨nofun, ?_⟩, fun _ => hsignature, fun _ => ⟨s, rfl, hzero⟩⟩
        rintro (heq | ⟨-, hother⟩)
        · exact absurd heq hnil
        · exact absurd hsignature hother
      · rw [hnone hsignature]
        exact ⟨⟨fun _ => .inr ⟨hend, hsignature⟩, fun _ => rfl⟩, nofun, fun heq => absurd heq hsignature⟩
    · have hopen := unzOpen64_archive ι h hnil hend
      have hother : (localParts items).length ≠ endSignatureOffset := by
        intro heq
        exact hend ((misleading_iff h hsmall).mpr (endSignature_of_offset heq))
      rw [hopen]
      refine ⟨⟨nofun, ?_⟩, ?_, fun heq => absurd heq hother⟩
      · rintro (heq | ⟨hmis, -⟩)
        · exact absurd heq hnil
        · exact absurd hmis hend
      · rintro ⟨s, hs, hzero⟩
        cases hs
        rw [numberEntry_unzGoToFirstFile] at hzero
        have hpos := List.length_pos_iff.mpr hnil
        have hfound : entriesFound items = 0 := hzero
        rw [entriesFound, if_neg (Nat.not_le.mpr hsmall)] at hfound
        omega

/-- Below 4 GiB `unzOpen64` refuses what `Compress` wrote just when it has no files, or the numbers at the end of it
hold the signature of an end record, but not as the offset of the directory. An archive of which the directory
begins at that byte is opened, and has no entries then. -/
theorem unzFile_packFiles_eq_none_iff (hZ : Z.Documented) (fuel : ℕ) (sources : List Source)
    (hlen : ∀ src ∈ sources, src.contents.length < 2 ^ 32)
    (hfuel : ∀ src ∈ sources, Z.deflateBound src.contents.length + 2 ≤ fuel) :
    ∃ items, packFiles Z fuel sources = some (zipOk, archive items) ∧ List.Forall₂ (BecomesItem Z) sources items ∧
      (Ordinary items → (localParts items).length < invalidValue → ∀ fuel',
        (unzFile Z fuel' (archive items) = some none ↔ sources = [] ∨
          endSignature <:+: endNumbers items ∧ (localParts items).length ≠ endSignatureOffset) ∧
        (unzFile Z fuel' (archive items) = some (some ⟨true, []⟩) ↔
          (localParts items).length = endSignatureOffset)) := by
  obtain ⟨items, hpack, hitems⟩ := packFiles_spec fuel hZ sources hlen hfuel
  refine ⟨items, hpack, hitems, fun h hsmall fuel' => ?_⟩
  have hnil : sources = [] ↔ items = [] := by
    rw [← List.length_eq_zero_iff, hitems.length_eq, List.length_eq_zero_iff]
  rw [hnil, unzFile_eq_none_iff, unzFile_eq_nil_iff]
  exact unzOpen64_small ι h hsmall

theorem unzFile_packFiles_samples_ne : ∃ file, packFiles codec 10 samples = some (zipOk, file) ∧
    unzFile codec 10 file ≠ some none ∧ unzFile codec 10 file ≠ some (some ⟨true, []⟩) := by
  obtain ⟨items, hpack, hitems, hiff⟩ := unzFile_packFiles_eq_none_iff documented_codec 10 samples
    (fun src hsrc => (short_samples src hsrc).contents) fuel_samples
  obtain ⟨text, text', rfl⟩ := becomes_samples hitems
  obtain ⟨hnone, hnil⟩ := hiff (ordinary_samples text text') (small_samples text text') 10
  refine ⟨_, hpack, ?_⟩
  rw [ne_eq, ne_eq, hnone, hnil]
  cases text <;> cases text' <;> decide +kernel

end AppUtil.MiniZip
