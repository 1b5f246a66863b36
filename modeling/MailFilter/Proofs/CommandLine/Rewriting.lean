import MailFilter.CommandLine.Outcome
import MailFilter.Proofs.Encoding
import MailFilter.Proofs.Result
import MailFilter.Value.Yaml.Document

/-!
# Rewriting files

A file that is there and is written again holds what was written, and everything else stays.  Hence
a file that was brought into canonical form in its place passes the check of its form.
-/

namespace MailFilter

/-! ## Folders -/

namespace Folder

theorem fst_putFile {names : List String} {old : Text.Bytes} (bytes : Text.Bytes)
    {files : List (List String × Text.Bytes)} (h : fileNamed? names files = some old) :
    (putFile names bytes files).map (·.1) = files.map (·.1) := by
  induction files with
  | nil => cases h
  | cons file files ih =>
      rw [putFile]
      by_cases hfile : file.1 = names
      · rw [if_pos (beq_iff_eq.mpr hfile), List.map_cons, List.map_cons, hfile]
      · rw [if_neg (mt beq_iff_eq.mp hfile), List.map_cons, List.map_cons, ih]
        rw [fileNamed?, List.find?_cons, show (file.1 == names) = false by simpa using hfile] at h
        exact h

variable {f : Folder} {target names : List String} {old : Text.Bytes}

theorem fileNamed?_of_entry (h : f.entry names = .file old) : fileNamed? names f.files = some old := by
  unfold entry at h
  split at h
  · next bytes hbytes =>
      cases h
      exact hbytes
  · split at h <;> cases h

theorem entry_putFile_of_ne (hfile : f.entry target = .file old) (bytes : Text.Bytes)
    (hne : names ≠ target) : entry ⟨putFile target bytes f.files⟩ names = f.entry names := by
  have hany : (putFile target bytes f.files).any (fun file => names.isPrefixOf file.1) =
      f.files.any (fun file => names.isPrefixOf file.1) := by
    have hnames := fst_putFile bytes (fileNamed?_of_entry hfile)
    calc (putFile target bytes f.files).any (fun file => names.isPrefixOf file.1)
        = ((putFile target bytes f.files).map (·.1)).any names.isPrefixOf := by
          rw [List.any_map]
          rfl
      _ = (f.files.map (·.1)).any names.isPrefixOf := by rw [hnames]
      _ = f.files.any (fun file => names.isPrefixOf file.1) := by
          rw [List.any_map]
          rfl
  rw [entry, entry, fileNamed?_putFile_of_ne hne, hany]

theorem entry_putFile (bytes : Text.Bytes) :
    entry ⟨putFile target bytes f.files⟩ target = .file bytes := by
  rw [entry, fileNamed?_putFile]

def placeFrom (place names : List String) : List String :=
  names.foldl (fun names name => if name == ".." then names.dropLast else names ++ [name]) place

theorem entry_of_follow {place : List String} (h : f.follow place names = .file old) :
    f.entry (placeFrom place names) = .file old := by
  fun_induction follow f place names with
  | case1 => exact h
  | case2 => cases h
  | case3 place name rest hdots _ ih =>
      rw [placeFrom, List.foldl_cons, if_pos hdots]
      exact ih h
  | case4 place name rest hdots _ ih =>
      rw [placeFrom, List.foldl_cons, if_neg hdots]
      exact ih h
  | case5 place name rest hdots bytes hentry hrest =>
      rw [List.isEmpty_iff.mp hrest, placeFrom, List.foldl_cons, if_neg hdots]
      exact hentry.trans h
  | case6 => cases h
  | case7 _ _ _ _ _ hfile => exact absurd h (hfile old)

theorem follow_putFile {place : List String} (h : f.follow place names = .file old)
    (bytes : Text.Bytes) :
    follow ⟨putFile (placeFrom place names) bytes f.files⟩ place names = .file bytes := by
  have htarget := entry_of_follow h
  generalize hplace : placeFrom place names = target at htarget ⊢
  fun_induction follow f place names with
  | case1 place =>
      rw [placeFrom, List.foldl_nil] at hplace
      rw [follow, hplace, entry_putFile]
  | case2 => cases h
  | case3 place name rest hdots hempty ih =>
      rw [placeFrom, List.foldl_cons, if_pos hdots] at hplace
      rw [follow, if_pos hdots, if_neg hempty]
      exact ih h hplace
  | case4 place name rest hdots hentry ih =>
      rw [placeFrom, List.foldl_cons, if_neg hdots] at hplace
      have hne : place ++ [name] ≠ target := by
        rintro rfl
        rw [hentry] at htarget
        cases htarget
      rw [follow, if_neg hdots, entry_putFile_of_ne htarget bytes hne, hentry]
      exact ih h hplace
  | case5 place name rest hdots _ _ hrest =>
      rw [List.isEmpty_iff.mp hrest, placeFrom, List.foldl_cons, if_neg hdots, List.foldl_nil] at hplace
      rw [follow, if_neg hdots, hplace, entry_putFile]
      exact if_pos hrest
  | case6 => cases h
  | case7 _ _ _ _ _ hfile => exact absurd h (hfile old)

theorem look_write {path : Path} (h : f.look path = .file old) (bytes : Text.Bytes) :
    (f.write path bytes).look path = .file bytes := by
  unfold look at h ⊢
  split at h
  · next hroot =>
      rw [if_pos hroot]
      exact follow_putFile h bytes
  · cases h

end Folder

/-! ## Settings -/

namespace Settings

theorem ascii_of_blanks {v : Value} {text : String} (h : blanks v = .ok text) :
    ∀ c ∈ text.toList, Text.isBlank c = true ∧ c.toNat < 0x80 := by
  unfold blanks at h
  obtain ⟨n, -, h⟩ := ok_of_bind h
  split at h
  · cases h
  · cases h
    intro c hc
    rw [String.toList_ofList] at hc
    rw [List.eq_of_mem_replicate hc]
    exact ⟨rfl, by decide⟩

theorem ascii_of_indentText {s : Settings} {text : String} (h : s.indentText = .ok text) :
    ∀ c ∈ text.toList, Text.isBlank c = true ∧ c.toNat < 0x80 := by
  unfold indentText at h
  split at h
  · dsimp only at h
    split at h
    · cases h
      exact List.forall_mem_singleton.mpr ⟨rfl, by decide⟩
    split at h
    · cases h
    · exact ascii_of_blanks h
  · exact ascii_of_blanks h

theorem asciiIndent_of_layout {s : Settings} {o : LayoutOptions} (h : s.layout = .ok o) :
    AsciiIndent o := by
  unfold layout at h
  obtain ⟨indent, hindent, h⟩ := ok_of_bind h
  obtain ⟨ending, -, h⟩ := ok_of_bind h
  obtain ⟨threshold, -, h⟩ := ok_of_bind h
  refine ⟨indent, ?_, ascii_of_indentText hindent⟩
  unfold LayoutOptions.make at h
  split at h
  · cases h
  split at h
  · cases h
  · cases h
  · cases h
    rfl

end Settings

/-! ## Runs -/

namespace CommandLine

/-- The folder after what an outcome writes. -/
def Outcome.leave (o : Outcome) (f : Folder) : Folder :=
  match o.written with
  | some (path, bytes) => f.write path bytes
  | none => f

def Ending.status? : Ending → Option Nat
  | .status n => some n
  | .failed _ => none

theorem Ending.eq_status {e : Ending} {n : Nat} (h : e.status? = some n) : e = .status n := by
  cases e with
  | status m => exact congrArg Ending.status (Option.some.inj h)
  | failed => cases h

theorem ending_ofFailure (diagnostics label : String) (expected : Bool) (failure : Failure) :
    (Outcome.ofFailure diagnostics label expected failure).ending ≠ .status 0 := by
  cases expected <;> rintro ⟨⟩

namespace Run

variable {r : Run}

theorem bytes_eq_ok {bytes : Text.Bytes} :
    r.bytes = .ok bytes ↔ r.surroundings.view r.path = .file bytes := by
  unfold Run.bytes View.read
  cases r.surroundings.view r.path with
  | missing | directory | belowFile => constructor <;> rintro ⟨⟩
  | file held =>
      change Except.ok held = Except.ok bytes ↔ Entry.file held = Entry.file bytes
      rw [Except.ok.injEq, Entry.file.injEq]

theorem script_eq_ok {s : Script} : r.script = .ok s ↔ ∃ bytes limit,
    r.surroundings.view r.path = .file bytes ∧ r.settings.limitNumber = .ok limit ∧
      Script.ofBytes r.settings.charsetName bytes r.file ⟨.default, .int limit⟩ = .ok s := by
  constructor
  · intro h
    obtain ⟨bytes, hbytes, h⟩ := ok_of_bind h
    obtain ⟨limit, hlimit, h⟩ := ok_of_bind h
    refine ⟨bytes, limit, bytes_eq_ok.mp hbytes, ?_, ?_⟩
    · cases hnumber : r.settings.limitNumber with
      | error e => rw [hnumber] at hlimit; cases hlimit
      | ok n => rw [hnumber] at hlimit; cases hlimit; rfl
    · cases hread : Script.ofBytes r.settings.charsetName bytes r.file ⟨.default, .int limit⟩ with
      | error e => rw [hread] at h; cases h
      | ok t => rw [hread] at h; cases h; rfl
  · rintro ⟨bytes, limit, hbytes, hlimit, hread⟩
    rw [script, bytes_eq_ok.mpr hbytes]
    change ((r.settings.limitNumber.mapError Failure.setting).bind fun limit => _) = _
    rw [hlimit]
    change (Script.ofBytes r.settings.charsetName bytes r.file ⟨.default, .int limit⟩).mapError _ = _
    rw [hread]
    rfl

theorem format_check {layout : LayoutOptions} {s : Script} {bytes : Text.Bytes}
    (hlayout : r.settings.layout = .ok layout) (hscript : r.script = .ok s)
    (hbytes : r.surroundings.view r.path = .file bytes)
    (hdecode : Script.decode r.settings.charsetName bytes = .ok (s.text layout)) (inplace : Bool) :
    (r.format inplace true).ending = .status 0 := by
  rw [format, hlayout, hscript]
  simp only [if_true]
  rw [compare, bytes_eq_ok.mpr hbytes]
  simp only [bind, Except.bind, hdecode, Except.mapError]
  rw [if_pos (beq_self_eq_true _)]

theorem eq_of_format {inplace check : Bool} (h : (r.format inplace check).ending = .status 0) :
    ∃ layout s, r.settings.layout = .ok layout ∧ r.script = .ok s ∧ ∃ diagnostics,
      r.format inplace check = if check then r.compare (s.text layout) diagnostics
        else if inplace then r.replaceFile (s.text layout) diagnostics
        else { output := s.text layout, diagnostics } := by
  unfold format at h
  split at h
  · exact absurd h (ending_ofFailure _ _ _ _)
  · next layout hlayout =>
      dsimp only at h
      split at h
      · exact absurd h (ending_ofFailure _ _ _ _)
      · next s hscript =>
          refine ⟨layout, s, hlayout, hscript, ?_⟩
          rw [format, hlayout, hscript]
          exact ⟨_, rfl⟩

theorem of_compare {text diagnostics : String}
    (h : (r.compare text diagnostics).ending = .status 0) :
    (r.compare text diagnostics).written = none ∧ ∃ bytes,
      r.surroundings.view r.path = .file bytes ∧
        Script.decode r.settings.charsetName bytes = .ok text := by
  unfold compare at h ⊢
  dsimp only at h ⊢
  split at h
  · exact absurd h (ending_ofFailure _ _ _ _)
  · next held hheld =>
      obtain ⟨bytes, hbytes, hdecode⟩ := ok_of_bind hheld
      split at h
      · next hsame =>
          rw [if_pos hsame]
          refine ⟨rfl, bytes, bytes_eq_ok.mp hbytes, ?_⟩
          cases hdecoded : Script.decode r.settings.charsetName bytes with
          | error e => rw [hdecoded] at hdecode; cases hdecode
          | ok other =>
              rw [hdecoded] at hdecode
              cases hdecode
              rw [beq_iff_eq.mp hsame]
      · cases h

theorem of_replaceFile {text diagnostics : String}
    (h : (r.replaceFile text diagnostics).ending = .status 0) :
    ∃ bytes, encodeText r.settings.charsetName text = .ok bytes ∧
      (r.replaceFile text diagnostics).written = some (r.path, bytes) := by
  unfold replaceFile at h ⊢
  split at h
  · next bytes hbytes => exact ⟨bytes, hbytes, rfl⟩
  · exact absurd h (ending_ofFailure _ _ _ _)

/-- Once a file was brought into canonical form in its place, it passes the check of its form. -/
theorem format_check_of_inplace {r' : Run} {f : Folder} {check : Bool}
    (hview : r.surroundings.view = f.look) (h : (r.format true check).ending = .status 0)
    (hview' : r'.surroundings.view = ((r.format true check).leave f).look)
    (hsettings : r'.settings = r.settings) (hfile : r'.file = r.file) (inplace : Bool) :
    (r'.format inplace true).ending = .status 0 := by
  obtain ⟨layout, s, hlayout, hscript, diagnostics, hformat⟩ := eq_of_format h
  obtain ⟨old, limit, hold, hlimit, hread⟩ := script_eq_ok.mp hscript
  have hpath : r'.path = r.path := by rw [path, path, hfile]
  rw [hview] at hold
  rw [hformat] at h hview'
  cases check with
  | true =>
      obtain ⟨hwritten, bytes, hbytes, hdecode⟩ := of_compare h
      rw [if_pos rfl, Outcome.leave, hwritten] at hview'
      have hheld : r'.surroundings.view r'.path = .file old := by
        rw [hview', hpath]
        exact hold
      have hsame : bytes = old := by
        rw [hview, hold] at hbytes
        exact (Entry.file.inj hbytes).symm
      rw [hsame] at hdecode
      rw [← hfile] at hread
      rw [← hsettings] at hlayout hlimit hread hdecode
      exact format_check hlayout (script_eq_ok.mpr ⟨old, limit, hheld, hlimit, hread⟩) hheld hdecode inplace
  | false =>
      obtain ⟨bytes, hencode, hwritten⟩ := of_replaceFile h
      rw [if_neg Bool.false_ne_true, if_pos rfl, Outcome.leave, hwritten] at hview'
      have hheld : r'.surroundings.view r'.path = .file bytes := by
        rw [hview', hpath]
        exact Folder.look_write hold bytes
      -- The charset is known, because the text was written in it.
      obtain ⟨c, hcharset⟩ : ∃ c, Text.Charset.ofName? r.settings.charsetName = some c := by
        cases hcharset : Text.Charset.ofName? r.settings.charsetName with
        | none => rw [encodeText, hcharset] at hencode; cases hencode
        | some c => exact ⟨c, rfl⟩
      obtain ⟨bytes', u, hbytes', hdecode, hu, -, hfixed⟩ :=
        Script.ofBytes_bytes (Settings.asciiIndent_of_layout hlayout) hcharset hread r'.file
      obtain rfl : bytes = bytes' := Except.ok.inj (hencode.symm.trans hbytes')
      rw [← hfixed] at hdecode
      rw [← hsettings] at hlayout hlimit hu hdecode
      exact format_check hlayout (script_eq_ok.mpr ⟨bytes, limit, hheld, hlimit, hu⟩) hheld hdecode inplace

end Run

theorem Invocation.run_of_load {yaml : Settings.YamlReader} {environment : List (String × String)}
    {view : View} {search : List Path} {i : Invocation} {task : Task} {file : String}
    {settings : Settings} {notices : Settings.Notices} (htask : i.task = some (task, file))
    (hload : Settings.load yaml environment view (i.documents search) = .ok (settings, notices)) :
    ∃ noticed again, i.run ⟨yaml, environment, view, search⟩ =
      Run.task ⟨⟨yaml, environment, view, search⟩, settings, noticed, again, i.debug, file⟩ task := by
  rw [run, htask]
  simp only [hload]
  exact ⟨_, _, rfl⟩

open Invocation in
/-- Bytes in, bytes out.  What is read from bytes in some charset can be written in that charset under
any layout whose indentation is blanks of ASCII, the new bytes are read as the same script, and their
text is its own canonical text.  Hence a file that was brought into canonical form in its place passes
the check of its form, where the same settings are found again, whatever reads the documents that they
are in. -/
theorem encoded_readBack :
    (∀ {charset : String} {old : Text.Bytes} {filename : String} {limit : Value} {t : Script}
        {o : LayoutOptions}, (Text.Charset.ofName? charset).isSome → AsciiIndent o →
      Script.ofBytes charset old filename ⟨.default, limit⟩ = .ok t → ∀ filename',
      ∃ bytes u text, t.bytes o charset = .ok bytes ∧
        Script.ofBytes charset bytes filename' ⟨.default, limit⟩ = .ok u ∧ u.alike t = true ∧
        Script.decode charset bytes = .ok text ∧ u.text o = text ∧
        ∃ v, Script.ofText text filename' ⟨.default, limit⟩ = .ok v ∧ v.text o = text) ∧
    ∀ {yaml : Settings.YamlReader} {f : Folder} {environment environment' : List (String × String)}
        {search search' : List Path} {i i' : Invocation} {file : String} {check inplace : Bool}
        {settings : Settings} {notices notices' : Settings.Notices},
      i.task = some (.format true check, file) → i'.task = some (.format inplace true, file) →
      Settings.load yaml environment f.look (i.documents search) = .ok (settings, notices) →
      (run ⟨yaml, environment, f.look, search⟩ i).ending = .status 0 →
      Settings.load yaml environment' ((run ⟨yaml, environment, f.look, search⟩ i).leave f).look
        (i'.documents search') = .ok (settings, notices') →
      (run ⟨yaml, environment', ((run ⟨yaml, environment, f.look, search⟩ i).leave f).look, search'⟩
        i').ending = .status 0 := by
  constructor
  · intro charset old filename limit t o hcharset ho h filename'
    obtain ⟨c, hcharset⟩ := Option.isSome_iff_exists.mp hcharset
    obtain ⟨bytes, u, hbytes, hdecode, hu, halike, hfixed⟩ :=
      Script.ofBytes_bytes ho hcharset h filename'
    obtain ⟨source, -, h⟩ := Script.decode_of_ofBytes h
    obtain ⟨hprintable, hdepth⟩ := Reading.printable_of_ofTextIn h
    obtain ⟨v, hv, -, hagain⟩ :=
      Script.ofTextIn_text ho.blank hprintable hdepth Text.ofName?_utf8 filename'
    exact ⟨bytes, u, t.text o, hbytes, hu, halike, hdecode, hfixed, v, hv, hagain⟩
  · intro yaml f environment environment' search search' i i' file check inplace settings notices notices'
      htask htask' hload hending hload'
    obtain ⟨noticed, again, hrun⟩ := run_of_load htask hload
    rw [hrun] at hending hload' ⊢
    obtain ⟨noticed', again', hrun'⟩ := run_of_load htask' hload'
    rw [hrun']
    refine Run.format_check_of_inplace (f := f) ?_ hending ?_ ?_ ?_ inplace <;> rfl

/-- Latin letters beyond ASCII, one of them in a tag in upper case, and a carriage return. -/
def umlauts : Text.Bytes := "keep :\u00C4;\r\n# \u00FC".toList.map fun c => .ofNat c.toNat

def umlautFolder : Folder := ⟨[(["a.sieve"], umlauts)]⟩

def umlautSurroundings : Surroundings :=
  ⟨Value.ofYaml, [("SIEVEKIT_CHARSET", "latin-1")], umlautFolder.look, []⟩

/-- The formatting of the file, in its place or not, or the check of its form. -/
def formatting (inplace check : Bool) : Invocation :=
  ⟨none, false, some (.format inplace check, "a.sieve")⟩

theorem encoded_readBack_umlauts :
    (∃ t bytes, Script.ofBytes "latin-1" umlauts "f" .default = .ok t ∧
      t.bytes .default "latin-1" = .ok bytes) ∧
    ((formatting true false).run umlautSurroundings).ending = .status 0 ∧
    ((formatting false true).run { umlautSurroundings with
      view := (((formatting true false).run umlautSurroundings).leave umlautFolder).look }).ending =
        .status 0 := by
  have hending : ((formatting true false).run umlautSurroundings).ending = .status 0 := by
    have hstatus : ((formatting true false).run umlautSurroundings).ending.status? = some 0 := by
      decide +kernel
    exact Ending.eq_status hstatus
  refine ⟨?_, hending, encoded_readBack.2 rfl rfl rfl hending rfl⟩
  obtain ⟨t, ht⟩ := exists_ok_of_isOk
    (show (Script.ofBytes "latin-1" umlauts "f" .default).isOk = true by decide +kernel)
  obtain ⟨bytes, -, -, hbytes, -⟩ :=
    encoded_readBack.1 (by decide +kernel) asciiIndent_default ht "f"
  exact ⟨t, bytes, ht, hbytes⟩

/-- The charsets with their usual names. -/
example : ["utf-8", "utf-8-sig", "latin-1", "ascii", "utf-16-le", "utf-16-be"].map Text.Charset.ofName? =
    [some .utf8, some .utf8Marked, some .latin1, some .ascii, some .utf16le, some .utf16be] := by
  decide +kernel

end CommandLine

end MailFilter
