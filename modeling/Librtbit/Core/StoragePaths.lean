import Librtbit.Core.Metainfo

/-!
# Core/StoragePaths — the paths an accepted torrent is stored under

`validate` looks for `..` and separators in the *bytes* of a name, but the path is built from the
decoded *text*.  Nothing relates the two: a decoder that removes a byte order mark or an escape
sequence turns bytes that are not `..` into the text `..`, and a name `.` is never looked for.

`TextSafe` says what the decoded names must be, and `pathsSafe_iff_textSafe` that nothing less will
do.  The paths of two files always differ.
-/

namespace Librtbit

open List

/-- The text has no separator, and the path no component but names. -/
structure PathSafe (encoding : Encoding) (file : FileDetails) : Prop where
  no_separator : ∀ text ∈ file.filename.iterComponents encoding, '/' ∉ text
  normal : ∀ c ∈ (file.filename.toPathbuf encoding).components,
    ∃ name, name ≠ [] ∧ c = .normal name

/-- **The storage paths are safe**: each consists of names only, and no two files that are stored
share one. -/
structure PathsSafe (encoding : Encoding) (files : List FileDetails) : Prop where
  safe : ∀ file ∈ files, PathSafe encoding file
  distinct : ((files.filter fun file => !file.attrs.padding).map
    fun file => (file.filename.toPathbuf encoding).components).Nodup

/-- No decoded name has a separator or is `..`, and the first that is not empty is not `.`. -/
structure TextSafe (encoding : Encoding) (file : FileDetails) : Prop where
  no_separator : ∀ text ∈ file.filename.iterComponents encoding, '/' ∉ text
  ne_parentDir : ∀ text ∈ file.filename.iterComponents encoding, text ≠ ['.', '.']
  first_ne_curDir :
    (file.filename.iterComponents encoding).find? (fun text => !text.isEmpty) ≠ some ['.']

/-- **A file is stored under a safe path exactly when its decoded names are safe.** -/
theorem pathSafe_iff_textSafe {encoding file} :
    PathSafe encoding file ↔ TextSafe encoding file := by
  constructor
  · intro h
    have hcomponents := PathBuf.components_foldl_push h.no_separator
    have hnormal := h.normal
    rw [FileIteratorName.toPathbuf, hcomponents] at hnormal
    refine ⟨h.no_separator, fun text htext heq => ?_, fun hfirst => ?_⟩
    · obtain ⟨name, -, hname⟩ := hnormal .parentDir
        (mem_append_right _ (mem_filterMap.mpr ⟨text, htext, by rw [heq]; rfl⟩))
      cases hname
    · obtain ⟨name, -, hname⟩ := hnormal .curDir (by simp [hfirst])
      cases hname
  · intro h
    refine ⟨h.no_separator, fun c hc => ?_⟩
    rw [FileIteratorName.toPathbuf, PathBuf.components_foldl_push h.no_separator,
      if_neg h.first_ne_curDir, nil_append] at hc
    obtain ⟨text, htext, hcomponent⟩ := mem_filterMap.mp hc
    simp only [PathBuf.component?, if_neg (h.ne_parentDir text htext)] at hcomponent
    split at hcomponent
    · cases hcomponent
    next hne =>
    split at hcomponent
    · cases hcomponent
    · exact ⟨text, hne, (Option.some.inj hcomponent).symm⟩

namespace TorrentMetaV1Info

variable {detectEncoding : TorrentMetaV1Info → Encoding} {info : TorrentMetaV1Info}

/-- **The paths of an accepted torrent are safe exactly when all its decoded names are.** -/
theorem pathsSafe_iff_textSafe {v : ValidatedTorrentMetaV1Info}
    (hv : info.validate detectEncoding = .ok v) :
    PathsSafe v.encoding v.iterFileDetails ↔
      ∀ file ∈ v.iterFileDetails, TextSafe v.encoding file := by
  obtain ⟨-, lengths, files, -, hfiles, hnames, rfl⟩ := validate_eq_ok.mp hv
  have hiter : ValidatedTorrentMetaV1Info.iterFileDetails
      { encoding := detectEncoding info, lengths, info } = files := by
    simp only [ValidatedTorrentMetaV1Info.iterFileDetails, hfiles]
  rw [hiter]
  refine ⟨fun h file hfile => pathSafe_iff_textSafe.mp (h.safe file hfile), fun h => ?_⟩
  refine ⟨fun file hfile => pathSafe_iff_textSafe.mpr (h file hfile), ?_⟩
  exact hnames.nodup.sublist (filter_sublist.map _)

/-- A torrent of one file of one byte, with the given path. -/
def oneByteFile (path : List ByteBuf) : TorrentMetaV1Info where
  pieces := some (List.replicate 20 0)
  pieceLength := 1
  files := some [{ length := 1, path }]

/-- What `validate` makes of it. -/
def validatedOneByteFile (path : List ByteBuf) : ValidatedTorrentMetaV1Info where
  encoding := utf8Ascii
  lengths := ⟨1, 1, 0, 1, 1⟩
  info := oneByteFile path

/-- An ordinary name behind a byte order mark is safe. -/
theorem pathsSafe_ordinary_name :
    (oneByteFile [[0xEF, 0xBB, 0xBF, 0x61]]).validate (fun _ => utf8Ascii)
        = .ok (validatedOneByteFile [[0xEF, 0xBB, 0xBF, 0x61]]) ∧
      PathsSafe utf8Ascii (validatedOneByteFile [[0xEF, 0xBB, 0xBF, 0x61]]).iterFileDetails := by
  refine ⟨?valid, (pathsSafe_iff_textSafe ?valid).mpr fun file hfile => ?_⟩
  · rfl
  obtain rfl : file = ⟨.tree [[0xEF, 0xBB, 0xBF, 0x61]], 1, none⟩ :=
    mem_singleton.mp hfile
  exact ⟨by decide, by decide, by decide⟩

/-- **A byte order mark hides a `..` from `validate`.** -/
theorem not_pathsSafe_parentDir :
    (oneByteFile [[0xEF, 0xBB, 0xBF, 0x2E, 0x2E]]).validate (fun _ => utf8Ascii)
        = .ok (validatedOneByteFile [[0xEF, 0xBB, 0xBF, 0x2E, 0x2E]]) ∧
      ¬ PathsSafe utf8Ascii
        (validatedOneByteFile [[0xEF, 0xBB, 0xBF, 0x2E, 0x2E]]).iterFileDetails := by
  refine ⟨by rfl, fun h => ?_⟩
  obtain ⟨name, -, hname⟩ := (h.safe _ (mem_singleton_self _)).normal .parentDir (by decide)
  cases hname

end TorrentMetaV1Info

end Librtbit
