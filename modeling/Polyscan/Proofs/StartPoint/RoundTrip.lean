import Polyscan.Proofs.StartPoint.Grammar

/-!
`parse` on the canonical text of what it returned: the absolute path of the file, `#`, and the names with `;`
between them.
-/
namespace Polyscan.StartPoint

variable {h h' : Host} {point file segment last : String} {names : List String} {ps : List PathPoint}

/-- A path with `~` of a known user in front of `#` is the same for the start point as a whole. -/
theorem not_unaskable_of_file (hsign : '#' ∉ file.toList) (hask : ¬ Path.Unaskable file) (segment : String) :
    ¬ Unaskable (file ++ "#" ++ segment) := by
  rintro ⟨path, hpath, hunask⟩
  rw [pathOf?, Text.split_append rfl, Text.split_of_not_mem hsign] at hpath
  cases hparts : Text.split '#' segment with
  | nil => exact Text.split_ne_nil '#' segment hparts
  | cons part more =>
    rw [hparts] at hpath
    cases more with
    | nil => exact hask (Option.some.inj hpath ▸ hunask)
    | cons next more => cases hpath

/-- The absolute path of a file denotes the file from any working directory. -/
theorem Denotes.rewrite {allowed : String → Prop} (hsign : '#' ∉ (h.absolute file).toList)
    (hthere : h.exists? (h.absolute file) = true) (hfile : h.isFolder (h.absolute file) = false)
    (hnames : ∀ m ∈ names, allowed m) (hlast : IsMethodName last) (hfiles : h'.files = h.files) {trail : String}
    (htrail : IsTrail trail) :
    Denotes h' allowed (h.absolute file ++ "#" ++ (Text.join ";" (names ++ [last]) ++ trail))
      ((names ++ [last]).map fun m => { file := h.absolute file, method := some m }) := by
  have hnormal := h.normal_absolute file
  have hnode := Host.node?_congr hfiles hnormal.isAbsolute
  have hsame := h'.absolute_of_normal hnormal
  have hthere' : h'.exists? (h'.absolute (h.absolute file)) = true := by
    rw [hsame, Host.exists?, hnode]
    exact hthere
  have hfile' : h'.isFolder (h'.absolute (h.absolute file)) = false := by
    rw [hsame, Host.isFolder, hnode]
    exact hfile
  have hdenotes := Denotes.methods hsign hthere' hfile' hnames hlast htrail
  rwa [hsame] at hdenotes

/-- The points of the start point `file#segment`, and the texts that `parse` takes for the same points. -/
structure RoundTrips (h : Host) (file segment : String) (names : List String) (ps : List PathPoint) : Prop where
  points : ps = names.map fun m => { file := h.absolute file, method := some m }
  named : names ≠ []
  normal : Path.Normal (h.absolute file)
  /-- The segment is the canonical list of the names, followed by white space and semicolons. -/
  joined : ∃ trail, segment = Text.join ";" names ++ trail ∧ IsTrail trail
  /-- The canonical list does not end with white space or a semicolon. -/
  bare : ∀ c, (Text.join ";" names).toList.getLast? = some c → ¬ Text.isBlank c.toNat = true ∧ c ≠ ';'
  again : '#' ∉ (h.absolute file).toList → ∀ h' trail, h'.files = h.files → IsTrail trail →
    parse h' (h.absolute file ++ "#" ++ (Text.join ";" names ++ trail)) = .ok ps

/-- The canonical list ends as its last name. -/
theorem bare_join (names : List String) (hlast : IsMethodName last) :
    ∀ c, (Text.join ";" (names ++ [last])).toList.getLast? = some c → ¬ Text.isBlank c.toNat = true ∧ c ≠ ';' := by
  intro c hc
  have hmem : c ∈ last.toList := by
    rw [Text.join, String.toList_ofList, List.map_append, List.map_singleton, Text.joinChars_snoc,
      List.getLast?_append_of_ne_nil _ hlast.ne_nil] at hc
    exact List.mem_of_getLast? hc
  simpa using hlast.stays hmem

/-- A start point with one `#` that `parse` accepts: the canonical text of its points, with any white space
and semicolons at the end and from any working directory on the same file tree, is parsed to the same points. -/
theorem parse_roundTrips (hsigns : point.toList.count '#' = 1) (hps : parse h point = .ok ps) :
    ∃ file segment names, point = file ++ "#" ++ segment ∧ RoundTrips h file segment names ps := by
  cases denotes_of_parse hps with
  | path hsign hthere =>
    rw [List.count_eq_zero.mpr hsign] at hsigns
    cases hsigns
  | @methods file trail last names hsign hthere hfile hnames hlast htrail =>
    refine ⟨file, _, names ++ [last], rfl, rfl, by simp, h.normal_absolute file, ⟨trail, rfl, htrail⟩,
      bare_join names hlast, ?_⟩
    intro hfree h' trail' hfiles htrail'
    have hask := Path.not_unaskable_of_isAbsolute (h.normal_absolute file).isAbsolute
    exact parse_of_denotes (not_unaskable_of_file hfree hask _)
      (.rewrite hfree hthere hfile hnames hlast hfiles htrail')

/-- A host with the file `/src/main.py`, whose working directory is `/src`. -/
def atWork : Host := ⟨.folder [("src", .folder [("main.py", .file (.bytes []))])], ["src"], "/home/user", []⟩

/-- A relative path with a doubled slash, and white space behind the names. -/
theorem parse_roundTrips_spaced :
    ".././src//main.py#run;stop_2 ;\t\n".toList.count '#' = 1 ∧
      parse atWork ".././src//main.py#run;stop_2 ;\t\n" =
        .ok [⟨"/src/main.py", some "run"⟩, ⟨"/src/main.py", some "stop_2"⟩] ∧
      ∃ file segment names, ".././src//main.py#run;stop_2 ;\t\n" = file ++ "#" ++ segment ∧
        RoundTrips atWork file segment names
          [⟨"/src/main.py", some "run"⟩, ⟨"/src/main.py", some "stop_2"⟩] := by
  have hsigns : ".././src//main.py#run;stop_2 ;\t\n".toList.count '#' = 1 := by decide
  have hparse : parse atWork ".././src//main.py#run;stop_2 ;\t\n" =
      .ok [⟨"/src/main.py", some "run"⟩, ⟨"/src/main.py", some "stop_2"⟩] := rfl
  exact ⟨hsigns, hparse, parse_roundTrips hsigns hparse⟩

end Polyscan.StartPoint
