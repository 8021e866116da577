/-
  HybridAccess — configurations that are saved and loaded.

  What is written to a file are the bytes of a document, and these are read
  back as the text (`toText?_ofText`). The file is found where it was written,
  in directories that were made for it (`write_cases`). A configuration is
  checked before it is written, so the check that follows reading does not
  refuse it. Main statement: `round_trip`.
-/
import HybridAccess.Config.File
import HybridAccess.Proofs.Config.Document
import HybridAccess.Proofs.Host.Written

namespace HybridAccess

/-! ## Bytes -/

namespace Bytes

theorem toList_loop (bs : ByteArray) (i : Nat) (r : Bytes) :
    ByteArray.toList.loop bs i r = r.reverse ++ bs.data.toList.drop i := by
  fun_induction ByteArray.toList.loop bs i r with
  | case1 i r h ih =>
    have hlength : i < bs.data.toList.length := by simpa using h
    have hget : bs.get! i = bs.data.toList[i] := getElem!_pos bs.data i h
    rw [ih, List.drop_eq_getElem_cons hlength, hget]
    simp
  | case2 i r h =>
    rw [List.drop_eq_nil_of_le (by simpa using h), List.append_nil]

/-- A text is read back from its bytes. -/
theorem toText?_ofText (text : String) : toText? (ofText text) = some text := by
  have hlist : text.toUTF8.toList = text.toUTF8.data.toList := toList_loop _ 0 []
  rw [ofText, toText?, hlist]
  exact dif_pos text.isValidUTF8

end Bytes

/-! ## Files -/

namespace Config

theorem toToml_eq_ok_iff {c : Config} {text : String} : c.toToml = .ok text ↔
    (∀ s ∈ c.texts, Toml.Text.isCountable s.toList) ∧ text = c.document := by
  unfold toToml
  rw [← List.all_eq_true]
  by_cases h : c.texts.all fun s => Toml.Text.isCountable s.toList
  · rw [if_pos h]
    constructor
    · intro heq
      exact ⟨h, (Except.ok.inj heq).symm⟩
    · rintro ⟨-, rfl⟩
      rfl
  · rw [if_neg h]
    constructor
    · intro heq
      cases heq
    · rintro ⟨hall, -⟩
      exact absurd hall h

namespace File

theorem document_eq_ok {path text : String} {occupied force : Bool} {c : Config}
    (h : document path occupied force c = .ok text) : c.check = .ok () ∧ c.toToml = .ok text := by
  unfold document at h
  cases hcheck : c.check with
  | error reason =>
    rw [hcheck] at h
    split at h <;> cases h
  | ok _ =>
    cases htoml : c.toToml with
    | error reason =>
      rw [hcheck, htoml] at h
      split at h <;> cases h
    | ok written =>
      rw [hcheck, htoml] at h
      split at h
      · cases h
      · obtain rfl : written = text := Except.ok.inj h
        exact ⟨rfl, rfl⟩

/-- What is written when a configuration is saved. -/
theorem save_eq_write {files later : Host.Files} {path : String} {c : Config} {force : Bool}
    (h : save files path c force = (.ok (), later)) :
    c.check = .ok () ∧ write files path (Bytes.ofText c.document) = (.ok (), later) := by
  unfold save at h
  cases hdocument : document path (files.contains path) force c with
  | error problem =>
    rw [hdocument] at h
    cases h
  | ok text =>
    rw [hdocument] at h
    obtain ⟨hcheck, htoml⟩ := document_eq_ok hdocument
    obtain ⟨-, rfl⟩ := toToml_eq_ok_iff.1 htoml
    exact ⟨hcheck, h⟩

theorem keeps_makeParent {files : Host.Files} (hsound : files.Sound) (path : String) :
    files.Keeps (makeParent files path).2 := by
  unfold makeParent
  dsimp only
  split
  · exact .refl files
  · exact Host.Files.keeps_makeDirectories hsound _

/-- What was written is a file in the tree with the directory for it. -/
theorem write_eq_ok {files later : Host.Files} {path : String} {contents : Bytes}
    (h : write files path contents = (.ok (), later)) :
    (makeParent files path).2.write path contents = .ok later := by
  unfold write at h
  generalize makeParent files path = made at h ⊢
  obtain ⟨_ | _, made⟩ := made
  · cases h
  · dsimp only at h ⊢
    cases hwritten : made.write path contents with
    | error reason =>
      rw [hwritten] at h
      cases h
    | ok written =>
      rw [hwritten] at h
      cases h
      rfl

/-- **A file that was written is found with its contents**, unless the path led to a device. -/
theorem find_of_write {files later : Host.Files} {path : String} {contents : Bytes}
    (hsound : files.Sound) (h : write files path contents = (.ok (), later))
    (hd : ∀ d, (makeParent files path).2.find path ≠ .ok (.device d)) :
    later.find path = .ok (.file contents) :=
  Host.Files.find_of_write (hsound.keeps (keeps_makeParent hsound path)) (write_eq_ok h) hd

/-- **A file that holds the document of a configuration is loaded as the configuration.** -/
theorem load_of_find {files : Host.Files} {path : String} {c : Config} (hc : c.IsRepresentable)
    (hcheck : c.check = .ok ())
    (h : files.find path = .ok (.file (Bytes.ofText c.document))) : load files path = .ok c := by
  have hcontains : files.contains path = true := by
    rw [Host.Files.contains, h]
    rfl
  have hread : files.read path = .ok (Bytes.ofText c.document) := by
    rw [Host.Files.read, h]
    rfl
  have hcontents : ofContents path (Bytes.ofText c.document) = .ok c := by
    rw [ofContents, Bytes.toText?_ofText]
    simp only [ofToml_document hc]
  rw [load, if_pos hcontains, hread, read, hcontents]
  simp only [bind, Except.bind, hcheck]
  rfl

end File

/-- **A configuration that is written is read back.** The document of a configuration says its
value, and is read as the configuration; it is what is written unless a text holds a run of quotes
that cannot be counted. A configuration that was saved is the one that is loaded from the files as
saving left them, whatever directories were made for it and whatever links the path goes along,
unless the path leads to a device, which keeps nothing. The device is looked for when the directory
for the file is there, since the path may go through a directory that is made. -/
theorem round_trip {c : Config} (h : c.IsRepresentable) :
    Toml.Document.read? c.document = some c.toValue ∧ ofValue false c.toValue = .ok c ∧
    (∀ text, c.toToml = .ok text → ofToml text = .ok c) ∧
    (c.toToml = .ok c.document ↔ ∀ s ∈ c.texts, Toml.Text.isCountable s.toList) ∧
    ∀ files path force later, File.save files path c force = (.ok (), later) →
      File.write files path (Bytes.ofText c.document) = (.ok (), later) ∧
      (files.Sound → (∀ d, (File.makeParent files path).2.find path ≠ .ok (.device d)) →
        later.find path = .ok (.file (Bytes.ofText c.document)) ∧
        File.load later path = .ok c) := by
  refine ⟨c.read?_document, ofValue_toValue h, ?_, ?_, ?_⟩
  · intro text htext
    obtain ⟨-, rfl⟩ := toToml_eq_ok_iff.1 htext
    exact ofToml_document h
  · rw [toToml_eq_ok_iff]
    exact and_iff_left rfl
  · intro files path force later hsave
    obtain ⟨hcheck, hwrite⟩ := File.save_eq_write hsave
    refine ⟨hwrite, fun hsound hdevice => ?_⟩
    have hfind := File.find_of_write hsound hwrite hdevice
    exact ⟨hfind, File.load_of_find h hcheck hfind⟩

/-- A configuration with quotes, a backslash and line feeds in its texts, and with all options. -/
def quoted : Config :=
  { default with
    tunnelMtu := some 1400
    identification := "it's \"it\"\n\\"
    eventScript := some "/etc/a'b"
    tickInterval := .ofParts 90061 5000
    reorder := .fixed (.ofMillis 30) }

/-- On a usual machine it is saved along a link, to a directory that has to be made, and loaded from
there. -/
theorem round_trip_quoted : quoted.IsRepresentable ∧ ofToml quoted.document = .ok quoted ∧
    (Host.Files.usual "/work").Sound ∧
    (File.save (.usual "/work") "../sbin/client/client.toml" quoted false).1 = .ok () ∧
    File.load (File.save (.usual "/work") "../sbin/client/client.toml" quoted false).2
      "../sbin/client/client.toml" = .ok quoted := by
  have hreorder : Duration.ofMillis 30 < Duration.limit := by decide
  have h : quoted.IsRepresentable := ⟨by decide, hreorder⟩
  have hsound : (Host.Files.usual "/work").Sound := Host.Files.sound_usual ⟨[], rfl⟩
  obtain ⟨-, -, hread, hwritten, hsaved⟩ := round_trip h
  have htoml : quoted.toToml = .ok quoted.document := hwritten.2 (by decide)
  have hsave : (File.save (.usual "/work") "../sbin/client/client.toml" quoted false).1 =
      .ok () := rfl
  have hfree : (File.makeParent (.usual "/work") "../sbin/client/client.toml").2.find
      "../sbin/client/client.toml" = .error .notFound := rfl
  obtain ⟨-, hback⟩ := hsaved (.usual "/work") "../sbin/client/client.toml" false _
    (Prod.ext hsave rfl)
  refine ⟨h, hread _ htoml, hsound, hsave, (hback hsound fun d hdevice => ?_).2⟩
  rw [hfree] at hdevice
  cases hdevice

end Config

end HybridAccess
