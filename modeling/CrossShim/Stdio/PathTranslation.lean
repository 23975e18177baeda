import CrossShim.Memory.Access
import CrossShim.Stdio.FormatParse

/-!
# Paths of the guest and of the host

`hle_path_translation.h`, and what `mkstemp` and the like of `hle_file.cpp` write over the guest's template.  The
guest's `/data/local/tmp` is the host's `/tmp`, and its programs are looked for in `/bin` and `/usr/bin`.
-/

namespace CrossShim.Stdio.PathTranslation

open Lib List Memory

def text (s : String) : List Byte := s.toList.map Format.ascii

def guestTmp : List Byte := text "/data/local/tmp"

def hostTmp : List Byte := text "/tmp"

/-- The path is the directory, or has it and a slash in front. -/
abbrev Under (dir path : List Byte) : Prop := path = dir ∨ dir ++ text "/" <+: path

def isGuestTmpPath (path : List Byte) : Bool := Under guestTmp path

-- what is behind the directory is empty for the directory itself, which the source translates by a case of its own
/-- `access` tells if the host can execute a file. -/
def translateGuestHostPath (access : List Byte → Bool) (guestPath : List Byte) : List Byte :=
  if Under guestTmp guestPath then hostTmp ++ guestPath.drop 15
  else if text "/system/bin/" <+: guestPath then
    (([text "/bin/", text "/usr/bin/"].map (· ++ guestPath.drop 12)).find? access).getD guestPath
  else guestPath

def translateHostGuestPath (hostPath : List Byte) : List Byte :=
  if Under hostTmp hostPath then guestTmp ++ hostPath.drop 4 else hostPath

def translateHostPathForGuest (guestPath hostPath : List Byte) : List Byte :=
  if isGuestTmpPath guestPath then translateHostGuestPath hostPath else hostPath

/-- `write_guest_template_result`, and `host_path_to_guest_for_template`; a null pointer is an empty path. -/
def writeGuestTemplateResult (mem : GuestMemory) (templateAddr : Word) (originalGuestPath : List Byte)
    (hostPath : Option (List Byte)) : GuestMemory :=
  let guestResult := translateHostPathForGuest originalGuestPath (hostPath.getD [])
  let writeback := if guestResult.length ≤ originalGuestPath.length then guestResult else hostPath.getD []
  (mem.write templateAddr (writeback ++ [0])).1

section

variable {dir path t : List Byte}

lemma under_append : Under dir (dir ++ t) ↔ t = [] ∨ text "/" <+: t := by
  rw [Under, append_right_eq_self, prefix_append_right_inj]

lemma Under.exists_append (h : Under dir path) : ∃ t, path = dir ++ t := by
  rcases h with rfl | h
  · exact ⟨[], (append_nil _).symm⟩
  · obtain ⟨t, rfl⟩ := (prefix_append ..).trans h
    exact ⟨t, rfl⟩

lemma translateGuestHostPath_tmp (access : List Byte → Bool) (h : Under guestTmp (guestTmp ++ t)) :
    translateGuestHostPath access (guestTmp ++ t) = hostTmp ++ t := if_pos h

lemma translateHostGuestPath_tmp (h : Under hostTmp (hostTmp ++ t)) :
    translateHostGuestPath (hostTmp ++ t) = guestTmp ++ t := if_pos h

lemma translateGuestHostPath_other (access : List Byte → Bool) (htmp : ¬Under guestTmp path)
    (hsys : ¬text "/system/bin/" <+: path) : translateGuestHostPath access path = path := by
  rw [translateGuestHostPath, if_neg htmp, if_neg hsys]

end

/-- The characters that `mkstemp` replaces. -/
def template : List Byte := text "XXXXXX"

/-- A template in the guest's directory is behind its slash. -/
lemma template_behind {init : List Byte} (h : Under guestTmp (init ++ template)) :
    ∃ u, init = guestTmp ++ (text "/" ++ u) := by
  rcases h with h | ⟨v, h⟩
  · have hs : template <:+ guestTmp := ⟨init, h⟩
    exact absurd hs (by decide)
  · obtain ⟨a, hpre, -⟩ | ⟨u, hpre, hv⟩ := append_eq_append_iff.1 h
    · exact ⟨a, by rw [hpre, append_assoc]⟩
    · -- no character of the template is the slash
      have hnil : ∀ u ∈ template.inits, u <:+ guestTmp ++ text "/" → u = [] := by decide
      have hu := hnil u ((mem_inits ..).2 ⟨v, hv.symm⟩) ⟨init, hpre.symm⟩
      exact ⟨[], by rw [append_nil, hpre, hu, append_nil]⟩

/-- **Translation of paths.**  A template comes back as it was, but for the characters that the host has chosen; and a
host path that the guest is told is translated back to itself. -/
theorem translate_round_trip (access : List Byte → Bool) :
    (∀ init : List Byte, ¬text "/system/bin/" <+: init ++ template →
      ∃ base, translateGuestHostPath access (init ++ template) = base ++ template ∧
        ∀ (mem : GuestMemory) (addr : Word) (six : List Byte), six.length = 6 →
          writeGuestTemplateResult mem addr (init ++ template) (some (base ++ six)) =
            (mem.write addr (init ++ six ++ [0])).1) ∧
    ∀ h : List Byte, ¬Under guestTmp h → ¬text "/system/bin/" <+: h →
      translateGuestHostPath access (translateHostGuestPath h) = h := by
  -- it is enough that the host's choice is translated for the guest with what was in front of the template
  have hwrite {mem addr init base six} (h6 : six.length = 6)
      (hr : translateHostPathForGuest (init ++ template) (base ++ six) = init ++ six) :
      writeGuestTemplateResult mem addr (init ++ template) (some (base ++ six)) =
        (mem.write addr (init ++ six ++ [0])).1 := by
    have hlen : (init ++ six).length ≤ (init ++ template).length := by
      rw [length_append, length_append, h6]
      rfl
    simp only [writeGuestTemplateResult, Option.getD_some, hr, if_pos hlen]
  refine ⟨?_, ?_⟩
  · intro init hsys
    by_cases htmp : Under guestTmp (init ++ template)
    · obtain ⟨u, rfl⟩ := template_behind htmp
      have hslash (dir six : List Byte) : Under dir (dir ++ (text "/" ++ (u ++ six))) :=
        under_append.2 (.inr (prefix_append ..))
      refine ⟨hostTmp ++ (text "/" ++ u), ?_, fun mem addr six h6 => hwrite h6 ?_⟩
      · simp only [append_assoc, translateGuestHostPath_tmp access (hslash ..)]
      · rw [translateHostPathForGuest, isGuestTmpPath, if_pos (decide_eq_true htmp)]
        simp only [append_assoc, translateHostGuestPath_tmp (hslash ..)]
    · refine ⟨init, translateGuestHostPath_other access htmp hsys, fun mem addr six h6 => hwrite h6 ?_⟩
      rw [translateHostPathForGuest, isGuestTmpPath, if_neg (by simpa using htmp)]
  · intro h htmp hsys
    by_cases hh : Under hostTmp h
    · obtain ⟨t, rfl⟩ := hh.exists_append
      rw [translateHostGuestPath_tmp hh]
      exact translateGuestHostPath_tmp access (under_append.2 (under_append.1 hh))
    · rw [translateHostGuestPath, if_neg hh]
      exact translateGuestHostPath_other access htmp hsys

/-- The guest's template comes back with six letters of the host; and a path of the host is told and taken back. -/
theorem translate_round_trip_tmp :
    let mem : GuestMemory := ⟨fun _ => 0, fun _ => true⟩
    ∃ base, translateGuestHostPath (fun _ => true) (guestTmp ++ text "/a" ++ template) = base ++ template ∧
      writeGuestTemplateResult mem 0x1000 (guestTmp ++ text "/a" ++ template) (some (base ++ text "k3Jq0Z")) =
        (mem.write 0x1000 (guestTmp ++ text "/a" ++ text "k3Jq0Z" ++ [0])).1 ∧
      translateGuestHostPath (fun _ => true) (translateHostGuestPath (hostTmp ++ text "/b")) = hostTmp ++ text "/b" := by
  obtain ⟨htemplate, hhost⟩ := translate_round_trip fun _ => true
  obtain ⟨base, hbase, hwrite⟩ := htemplate (guestTmp ++ text "/a") (by decide)
  exact ⟨base, hbase, hwrite _ 0x1000 _ rfl, hhost _ (by decide) (by decide)⟩

end CrossShim.Stdio.PathTranslation
