import AppUtil.Zip.Complete

/-! # There and back

`UnCompress` does not find an archive that is there. -/
namespace AppUtil.Zip
open AppUtil.Lib
set_option autoImplicit false

section RoundTrip
variable {κ : Type} [DecidableEq κ] {sys : System κ} {src zip dst : Path} {folder : Folder}

/-- `UnCompress` of the archive at `zip` succeeds, and below `dst` there are the files of the folder,
each under its name in the archive, and no others. -/
def Restores (sys : System κ) (folder : Folder) (src zip dst : Path) (iFlag : ℤ) (d : Disk κ) : Prop :=
  ∃ d', unCompress sys.ops sys.unzOpen64 (some zip) (some dst) iFlag d = .ok (zipOk, d') ∧
    ∀ name contents, d' (sys.locate (dst.child name)) = some (.file contents) ↔
      ∃ pc ∈ folder.files src, name = getRelativePath src pc.1 ∧ contents = pc.2

/-- The test for the archive is the wrong way round. -/
theorem unCompress_found {σ : Type} {ops : FileOps σ} (unzOpen64 : σ → Path → Option UnzFile) {s : σ}
    (h : ops.accessFile s zip = true) (iFlag : ℤ) :
    unCompress ops unzOpen64 (some zip) (some dst) iFlag s = .ok (zipStateFileNotFound, s) :=
  if_pos h

theorem compress_accessFile {iFlag : ℤ} {d d' : Disk κ} (hd : sys.Holds d src folder)
    (h : compress sys folder (some src) (some zip) iFlag d = .ok (zipOk, d')) :
    sys.ops.accessFile d' zip = true := by
  obtain ⟨-, d₁, -, rfl⟩ := (compress_ok_iff hd).mp h
  show (sys.setFile _ _ _ _).isSome = true
  rw [System.setFile, Function.update_self]
  rfl

theorem not_restores {iFlag : ℤ} {d : Disk κ} (h : sys.ops.accessFile d zip = true) :
    ¬ Restores sys folder src zip dst iFlag d := by
  rintro ⟨d', hok, -⟩
  rw [unCompress_found sys.unzOpen64 h iFlag] at hok
  cases hok

/-- **There is no way back** from a `ZIP_OK`: what `Compress` has packed is restored only where it
does not return `ZIP_OK` at all. -/
theorem roundTrip_iff {d : Disk κ} (hd : sys.Holds d src folder) (iFlag iFlag' : ℤ) :
    (∀ d', compress sys folder (some src) (some zip) iFlag d = .ok (zipOk, d') →
        Restores sys folder src zip dst iFlag' d') ↔
      ¬ Passes sys folder src zip d := by
  constructor
  · intro h hp
    obtain ⟨d₁, hprep, -⟩ := hp.placed
    have hx : compress sys folder (some src) (some zip) iFlag d = .ok (zipOk, _) :=
      (compress_ok_iff hd).mpr ⟨hp, d₁, hprep, rfl⟩
    exact not_restores (compress_accessFile hd hx) (h _ hx)
  · intro hp d' hx
    exact absurd ((compress_ok_iff hd).mp hx).1 hp

end RoundTrip

theorem roundTrip_iff_sample :
    ¬ ∀ d', compress (mostly (fun _ => true) (fun _ => true) true) smallFolder (some smallPath)
        (some smallZip) 0 smallDisk = .ok (zipOk, d') →
      Restores (mostly (fun _ => true) (fun _ => true) true) smallFolder smallPath smallZip
        ['c', ':', '\\', 'd'] 1 d' := by
  obtain ⟨d', h⟩ := smallDisk_compress (fun _ => true) (fun _ => true) true rfl
  intro hall
  refine (roundTrip_iff (smallDisk_holds _ rfl) 0 1).mp hall ?_
  exact ((compress_ok_iff (smallDisk_holds _ rfl)).mp h).1

/-- On the small disk no call fails and nothing is at `c:\d`. The archive is complete, and is not
found. -/
theorem small_roundTrip : ∃ d',
    compress (mostly (fun _ => true) (fun _ => true) true) smallFolder (some smallPath) (some smallZip) 0
        smallDisk = .ok (zipOk, d') ∧
      Complete (mostly (fun _ => true) (fun _ => true) true) smallFolder smallPath smallZip d' ∧
      unCompress (mostly (fun _ => true) (fun _ => true) true).ops
        (mostly (fun _ => true) (fun _ => true) true).unzOpen64 (some smallZip)
        (some ['c', ':', '\\', 'd']) 1 d' = .ok (zipStateFileNotFound, d') ∧
      ¬ Restores (mostly (fun _ => true) (fun _ => true) true) smallFolder smallPath smallZip
        ['c', ':', '\\', 'd'] 1 d' := by
  obtain ⟨d', h⟩ := smallDisk_compress (fun _ => true) (fun _ => true) true rfl
  have hfound := compress_accessFile (smallDisk_holds _ rfl) h
  refine ⟨d', h, ?_, unCompress_found _ hfound 1, not_restores hfound⟩
  refine complete_of_lossless (smallDisk_holds _ rfl) h ⟨?_, fun _ _ => rfl, by decide, rfl⟩
  exact fun pc hpc => hpc

end AppUtil.Zip
