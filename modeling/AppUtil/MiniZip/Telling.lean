import AppUtil.MiniZip.RoundTrip

/-! # What the bytes of an archive tell

Which files were packed can be told from the bytes of an archive alone, whatever `unzip.c` makes of them: the
local headers say where each name and its data end. -/
namespace AppUtil.MiniZip
open AppUtil.Lib
open AppUtil.Zip (Bytes)
set_option autoImplicit false
variable {δ ι : Type} {Z : Zlib δ ι}

/-! ## Data -/

/-- Some of it is put out with the first call of the end. -/
theorem Zlib.Finishing.ne_nil (hZ : Z.Documented) {d : δ} {x out : Bytes} (h : Z.Finishing d x out) :
    out ≠ [] ∨ Z.Deflating d x out := by
  induction h with
  | start hd => exact .inr hd
  | call hf hroom hret ih =>
    left
    cases ih with
    | inl hout => exact List.append_ne_nil_of_left_ne_nil hout _
    | inr hd => exact List.append_ne_nil_of_right_ne_nil _ (hZ.finish_out hd hroom)

theorem Zlib.Deflated.ne_nil (hZ : Z.Documented) {x c : Bytes} (h : Z.Deflated x c) : c ≠ [] := by
  obtain ⟨d, out, room, hf, hroom, -, rfl⟩ := h
  cases hf.ne_nil hZ with
  | inl hout => exact List.append_ne_nil_of_left_ne_nil hout _
  | inr hd => exact List.append_ne_nil_of_right_ne_nil _ (hZ.finish_out hd hroom)

/-- A call of `inflate` that is given all of the data and has room to spare. -/
theorem Zlib.Deflated.inflate_all (hZ : Z.Documented) {x c : Bytes} (h : Z.Deflated x c) (room : ℕ)
    (hroom : x.length < room) : (Z.inflate Z.inflateInit2 c room).out = x := by
  have hcall : Z.Inflates x c [] [] c room (Z.inflate Z.inflateInit2 c room) :=
    hZ.inflate h .init (List.prefix_refl c) (by omega) (.inl (h.ne_nil hZ))
  have hle := hcall.out.length_le
  rw [List.nil_append] at hle
  have htaken : (Z.inflate Z.inflateInit2 c room).taken = c.length := by
    rcases hcall.stops with hall | hfull
    · exact hall
    · omega
  exact hcall.rest (by rw [htaken, List.nil_append, List.take_length]) (by omega)

theorem Zlib.Deflated.inj (hZ : Z.Documented) {x y c : Bytes} (hx : Z.Deflated x c) (hy : Z.Deflated y c) : x = y := by
  rw [← hx.inflate_all hZ (x.length + y.length + 1) (by omega), hy.inflate_all hZ _ (by omega)]

/-! ## Local headers -/

/-- An entry of which the local header tells the sizes. -/
structure Item.Told (it : Item) : Prop where
  filename : it.filename.length < 2 ^ 16
  data : it.data.length < invalidValue
  uncompressedSize : it.uncompressedSize < invalidValue

/-- What a local header tells of the name and the data. -/
theorem run_readLocalHeader_told {it : Item} (h : it.Told) (rest : Bytes) :
    ∃ flag method crc size extra, readLocalHeader.run (it.localPart ++ rest) =
      some ((localHeaderMagic, flag, method, crc, it.data.length, size, it.filename.length, extra),
        it.filename ++ (it.localExtra ++ (it.data ++ rest))) := by
  have hname : stored it.filename.length 2 = it.filename.length := stored_of_lt h.filename
  have hsmall : ¬ it.uncompressedSize ≥ invalidValue := Nat.not_le.mpr h.uncompressedSize
  have hdata : stored it.localHeader.compressedSize 4 = it.data.length := by
    have hsize : it.localHeader.compressedSize = it.data.length := if_neg hsmall
    rw [hsize]
    exact stored_of_lt (Nat.lt_trans h.data (by decide))
  refine ⟨stored it.flag 2, zDeflated, stored it.crc 4, stored it.localHeader.uncompressedSize 4, stored 20 2, ?_⟩
  rw [Item.localPart, List.append_assoc, run_readLocalHeader, hdata, List.append_assoc it.localExtra]
  show some ((_, _, _, _, _, _, stored it.filename.length 2, _), _) = _
  rw [hname]
  rfl

theorem localPart_inj {it it' : Item} (h : it.Told) (h' : it'.Told) {rest rest' : Bytes}
    (heq : it.localPart ++ rest = it'.localPart ++ rest') :
    it.filename = it'.filename ∧ it.data = it'.data ∧ rest = rest' := by
  obtain ⟨flag, method, crc, size, extra, hrun⟩ := run_readLocalHeader_told h rest
  obtain ⟨flag', method', crc', size', extra', hrun'⟩ := run_readLocalHeader_told h' rest'
  rw [heq, hrun'] at hrun
  obtain ⟨hfields, hbytes⟩ := Prod.mk.inj (Option.some.inj hrun)
  simp only [Prod.mk.injEq] at hfields
  obtain ⟨-, -, -, -, hdata, -, hname, -⟩ := hfields
  obtain ⟨hname, hbytes⟩ := List.append_inj hbytes hname
  have hextra : it'.localExtra.length = it.localExtra.length := by
    rw [it.length_localExtra, it'.length_localExtra]
  obtain ⟨-, hbytes⟩ := List.append_inj hbytes hextra
  obtain ⟨hdata, hrest⟩ := List.append_inj hbytes hdata
  exact ⟨hname.symm, hdata.symm, hrest.symm⟩

/-! ## Archives -/

def localSignature : Bytes := [0x50, 0x4b, 3, 4]

theorem localPart_signature (it : Item) (rest : Bytes) : localSignature <+: it.localPart ++ rest := by
  have hmagic : putValue localHeaderMagic 4 = localSignature := by decide
  rw [Item.localPart, LocalHeader.bytes, hmagic]
  simp only [List.append_assoc]
  exact List.prefix_append localSignature _

/-- Behind the local parts there is none. -/
theorem not_localSignature_behind (items : List Item) (numberEntry size offset : ℕ) :
    ¬ localSignature <+: centralDir 0 items ++ (zip64End items ++ endRecord numberEntry size offset) := by
  cases items with
  | nil =>
    have hmagic : putValue endHeaderMagic 4 = endSignature := by decide
    rw [centralDir, List.nil_append]
    have hnone : zip64End [] = [] := by decide
    rw [hnone, List.nil_append, endRecord, hmagic]
    simp [localSignature, endSignature]
  | cons it rest =>
    have hmagic : putValue centralHeaderMagic 4 = [0x50, 0x4b, 1, 2] := by decide
    rw [centralDir, CentralHeader.bytes, hmagic]
    simp [localSignature]

/-- One local part after the other. -/
theorem localParts_inj {items items' : List Item} (h : ∀ it ∈ items, it.Told) (h' : ∀ it ∈ items', it.Told)
    {rest rest' : Bytes} (hrest : ¬ localSignature <+: rest) (hrest' : ¬ localSignature <+: rest')
    (heq : localParts items ++ rest = localParts items' ++ rest') :
    items.map (fun it => (it.filename, it.data)) = items'.map (fun it => (it.filename, it.data)) := by
  induction items generalizing items' with
  | nil =>
    cases items' with
    | nil => rfl
    | cons it' more' =>
      rw [localParts_cons, List.append_assoc] at heq
      have hnil : rest = it'.localPart ++ (localParts more' ++ rest') := heq
      exact absurd (hnil ▸ localPart_signature it' _) hrest
  | cons it more ih =>
    rw [localParts_cons, List.append_assoc] at heq
    cases items' with
    | nil =>
      have hnil : it.localPart ++ (localParts more ++ rest) = rest' := heq
      exact absurd (hnil ▸ localPart_signature it _) hrest'
    | cons it' more' =>
      rw [localParts_cons, List.append_assoc] at heq
      obtain ⟨hname, hdata, hmore⟩ :=
        localPart_inj (h it (List.mem_cons_self ..)) (h' it' (List.mem_cons_self ..)) heq
      rw [List.map_cons, List.map_cons, hname, hdata,
        ih (fun i hi => h i (List.mem_cons_of_mem it hi)) (fun i hi => h' i (List.mem_cons_of_mem it' hi)) hmore]

theorem archive_inj {items items' : List Item} (h : ∀ it ∈ items, it.Told) (h' : ∀ it ∈ items', it.Told)
    (heq : archive items = archive items') :
    items.map (fun it => (it.filename, it.data)) = items'.map (fun it => (it.filename, it.data)) :=
  localParts_inj h h' (not_localSignature_behind items _ _ _) (not_localSignature_behind items' _ _ _) heq

theorem entries_eq_of_becomes (hZ : Z.Documented) {sources sources' : List Source} {items items' : List Item}
    (hitems : List.Forall₂ (BecomesItem Z) sources items) (hitems' : List.Forall₂ (BecomesItem Z) sources' items')
    (heq : items.map (fun it => (it.filename, it.data)) = items'.map (fun it => (it.filename, it.data))) :
    sources.map Source.entry = sources'.map Source.entry := by
  induction hitems generalizing sources' items' with
  | nil =>
    cases hitems' with
    | nil => rfl
    | cons => cases heq
  | @cons src it rest items₁ hit hrest ih =>
    cases hitems' with
    | nil => cases heq
    | @cons src' it' rest' items₁' hit' hrest' =>
      obtain ⟨hhead, htail⟩ := List.cons.inj heq
      obtain ⟨text, c, hc, rfl⟩ := hit
      obtain ⟨text', c', hc', rfl⟩ := hit'
      obtain ⟨hname, rfl⟩ := Prod.mk.inj hhead
      have hname : src.filename = src'.filename := hname
      rw [List.map_cons, List.map_cons, ih hrest' htail, Source.entry, Source.entry, hname, hc.inj hZ hc']

/-- Files with other names or contents are not packed into the same bytes. -/
theorem entries_eq_of_archive_eq (hZ : Z.Documented) {sources sources' : List Source} {items items' : List Item}
    (hitems : List.Forall₂ (BecomesItem Z) sources items) (hitems' : List.Forall₂ (BecomesItem Z) sources' items')
    (h : ∀ it ∈ items, it.Told) (h' : ∀ it ∈ items', it.Told) (heq : archive items = archive items') :
    sources.map Source.entry = sources'.map Source.entry :=
  entries_eq_of_becomes hZ hitems hitems' (archive_inj h h' heq)

end AppUtil.MiniZip
