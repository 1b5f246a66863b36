import MailFilter.Proofs.RoundTrip

/-!
# Names of rules in the canonical text

The canonical text has a comment of several lines as one comment a line.  A command read back from
it is named by the lines: by the last one that names a rule.  A comment names the same rule by its
lines as it did as a whole where it has one line at most, blank lines apart.
-/

namespace MailFilter

open Layout Reading

/-! ## Names and blanks -/

theorem ruleName?_congr {a b : String} (h : Text.trim a.toList = Text.trim b.toList) :
    ruleName? a = ruleName? b := by
  simp only [ruleName?, h]

theorem ruleName?_of_blank {cs : List Char} (h : ∀ c ∈ cs, Text.isBlank c = true) :
    ruleName? (String.ofList cs) = none := by
  have hempty : ruleName? "" = none := by decide +kernel
  rw [← hempty]
  apply ruleName?_congr
  rw [String.toList_ofList, ← List.append_nil cs, Text.trim_blanks_append h]
  rfl

theorem ruleName?_trimRight (cs : List Char) :
    ruleName? (String.ofList (Text.trimRight cs)) = ruleName? (String.ofList cs) := by
  apply ruleName?_congr
  rw [String.toList_ofList, String.toList_ofList, Text.trim_trimRight]

/-! ## The last name -/

def lastName? (texts : List String) : Option String := texts.reverse.findSome? ruleName?

theorem lastName?_append (texts more : List String) :
    lastName? (texts ++ more) = (lastName? more).or (lastName? texts) := by
  rw [lastName?, List.reverse_append, List.findSome?_append]
  rfl

theorem lastName?_cons (text : String) (texts : List String) :
    lastName? (text :: texts) = (lastName? texts).or (ruleName? text) := by
  rw [← List.singleton_append, lastName?_append, lastName?, lastName?, List.reverse_singleton,
    List.findSome?_singleton]

theorem Head.ruleName?_eq {α : Type} (h : Head α) :
    h.ruleName? = lastName? (h.comments.map (·.text)) := by
  rw [lastName?, ← List.map_reverse, List.findSome?_map]
  rfl

/-! ## Names in lines -/

/-- The rule that a text names by its lines. -/
def lineName? (text : String) : Option String := lastName? (commentLines [text])

/-- The lines of texts name the rule that the last text names by its lines. -/
theorem lastName?_commentLines (texts : List String) :
    lastName? (commentLines texts) = texts.reverse.findSome? lineName? := by
  induction texts with
  | nil => rfl
  | cons text texts ih =>
      have hlines : commentLines (text :: texts) = commentLines [text] ++ commentLines texts := by
        simp only [commentLines, List.flatMap_cons, List.flatMap_nil, List.append_nil]
      rw [hlines, lastName?_append, ih, List.reverse_cons, List.findSome?_append,
        List.findSome?_singleton, lineName?]

def isInked (line : List Char) : Bool := !line.all Text.isBlank

theorem isBlank_of_not_isInked {line : List Char} (h : ¬ isInked line = true) :
    ∀ c ∈ line, Text.isBlank c = true := by
  rw [isInked, Bool.not_eq_true, Bool.not_eq_false'] at h
  exact List.all_eq_true.1 h

/-- A text has one line at most, blank lines apart. -/
def IsOneLine (text : String) : Prop := (Text.lines text.toList).countP isInked ≤ 1

instance (text : String) : Decidable (IsOneLine text) := inferInstanceAs (Decidable (_ ≤ _))

theorem isBlank_break : ∀ c ∈ ['\n'], Text.isBlank c = true := List.forall_mem_singleton.2 rfl

theorem isBlank_of_mem_unlines {ls : List (List Char)} (h : ∀ line ∈ ls, ¬ isInked line = true) :
    ∀ c ∈ Text.unlines ls, Text.isBlank c = true := by
  intro c hc
  obtain ⟨line, hline, hc⟩ := List.mem_flatMap.1 hc
  rcases List.mem_append.1 hc with hc | hc
  · exact isBlank_of_not_isInked (h line hline) c hc
  · exact isBlank_break c hc

theorem lastName?_lines {ls : List (List Char)} (h : ls.countP isInked ≤ 1) :
    lastName? (ls.map String.ofList) = ruleName? (String.ofList (Text.unlines ls)) := by
  induction ls with
  | nil => exact (ruleName?_of_blank (List.forall_mem_nil _)).symm
  | cons line ls ih =>
      have hunlines : Text.unlines (line :: ls) = (line ++ ['\n']) ++ Text.unlines ls := rfl
      rw [List.map_cons, lastName?_cons, hunlines]
      by_cases hline : isInked line = true
      · rw [List.countP_cons_of_pos hline] at h
        have hrest : ls.countP isInked = 0 := by omega
        have hblank := isBlank_of_mem_unlines (List.countP_eq_zero.1 hrest)
        rw [ih (by omega), ruleName?_of_blank hblank, Option.none_or]
        apply ruleName?_congr
        rw [String.toList_ofList, String.toList_ofList, Text.trim_append_blanks hblank,
          Text.trim_append_blanks isBlank_break]
      · have hblank := isBlank_of_not_isInked hline
        rw [List.countP_cons_of_neg hline] at h
        rw [ih h, ruleName?_of_blank hblank, Option.or_none]
        apply ruleName?_congr
        rw [String.toList_ofList, String.toList_ofList, List.append_assoc,
          Text.trim_blanks_append hblank, Text.trim_blanks_append isBlank_break]

theorem IsOneLine.lineName?_eq {text : String} (h : IsOneLine text) :
    lineName? text = ruleName? text := by
  have hlines : commentLines [text] = (Text.lines text.toList).map
      fun line => String.ofList (Text.trimRight line) := by
    rw [commentLines, List.flatMap_singleton]
  have htrimmed : lastName? (commentLines [text]) =
      lastName? ((Text.lines text.toList).map String.ofList) := by
    simp only [hlines, lastName?, ← List.map_reverse, List.findSome?_map, Function.comp_def,
      ruleName?_trimRight]
  rw [lineName?, htrimmed, lastName?_lines h, Text.unlines_lines]
  apply ruleName?_congr
  rw [String.toList_ofList, Text.trim_append_blanks isBlank_break]

/-! ## The text that decides -/

/-- The last text that names a rule, as a whole or by its lines. -/
def naming? (texts : List String) : Option String :=
  texts.reverse.find? fun text => (ruleName? text).isSome || (lineName? text).isSome

theorem findSome?_congr_of_find? {γ δ : Type} {f g : γ → Option δ} {xs : List γ}
    (h : ∀ x ∈ xs.find? fun x => (f x).isSome || (g x).isSome, f x = g x) :
    xs.findSome? f = xs.findSome? g := by
  induction xs with
  | nil => rfl
  | cons x xs ih =>
      rw [List.find?_cons] at h
      split at h
      · next hx =>
          have hfg : f x = g x := h x rfl
          rw [← hfg, Bool.or_self] at hx
          rw [List.findSome?_cons_of_isSome hx, List.findSome?_cons_of_isSome (hfg ▸ hx), hfg]
      · next hx =>
          rw [Bool.or_eq_false_iff, Option.isSome_eq_false_iff, Option.isSome_eq_false_iff] at hx
          rw [List.findSome?_cons_of_isNone hx.1, List.findSome?_cons_of_isNone hx.2, ih h]

theorem lastName?_commentLines_eq {texts : List String}
    (h : ∀ text ∈ naming? texts, IsOneLine text) :
    lastName? (commentLines texts) = lastName? texts := by
  rw [lastName?_commentLines, lastName?]
  exact (findSome?_congr_of_find? fun text htext => (h text htext).lineName?_eq.symm).symm

/-! ## Scripts -/

theorem comments_of_outline {α β : Type} {o : LayoutOptions} (hcomments : o.comments = true)
    {c : Command α} {d : Command β} (h : c.outline (commentTexts o) = d.outline id) :
    d.head.comments.map (·.text) = commentLines (c.head.comments.map (·.text)) := by
  have hhead := congrArg Command.head h
  rw [Command.head_outline, Command.head_outline] at hhead
  have htexts := congrArg (fun head => head.comments.map (·.text)) hhead
  simpa [Head.outline, Comment.outlineAll, Function.comp_def, commentTexts, hcomments] using
    htexts.symm

/-- The canonical text of a script that was read is read back with its comments, and then each
command has the name of the last rule that the lines of its comments name.  That is the name that it
had where the last comment that names a rule, as a whole or by its lines, has one line at most, blank
lines apart. -/
theorem ruleName?_readBack {source filename : String} {limit : Value} {s : Script}
    {o : LayoutOptions} (ho : BlankIndent o) (hcomments : o.comments = true)
    (h : Script.ofText source filename ⟨.default, limit⟩ = .ok s) :
    ∃ u, Script.ofText (s.text o) filename ⟨.default, limit⟩ = .ok u ∧
      List.Forall₂
        (fun c d =>
          d.head.ruleName? = lastName? (commentLines (c.head.comments.map (·.text))) ∧
          ((∀ text ∈ naming? (c.head.comments.map (·.text)), IsOneLine text) →
            d.head.ruleName? = c.head.ruleName?))
        s.walk u.walk := by
  obtain ⟨hprint, hdepth⟩ := printable_of_ofText h
  obtain ⟨u, hu, houtline⟩ := ofText_of_printable hprint ho filename hdepth
  refine ⟨u, hu, (Script.forall₂_walk_of_outline houtline.symm).imp fun c d hcd => ?_⟩
  have hname : d.head.ruleName? = lastName? (commentLines (c.head.comments.map (·.text))) := by
    rw [Head.ruleName?_eq, comments_of_outline hcomments hcd]
  refine ⟨hname, fun hone => ?_⟩
  rw [hname, lastName?_commentLines_eq hone, Head.ruleName?_eq]

/-- Labels on a line of their own, one of them above a comment of two lines. -/
def labelled : String := "# rule:[a]\n/* b\nc */ keep; /*\n rule: [d] */ stop;"

theorem ruleName?_readBack_labelled :
    ∃ s u, Script.ofText labelled "f" .default = .ok s ∧
      Script.ofText (s.text .default) "f" .default = .ok u ∧
      s.walk.map (·.head.ruleName?) = [some "a", some "d"] ∧
      List.Forall₂ (fun c d => d.head.ruleName? = c.head.ruleName?) s.walk u.walk := by
  obtain ⟨s, hs, hnames, hone⟩ : ∃ s, Script.ofText labelled "f" .default = .ok s ∧
      s.walk.map (·.head.ruleName?) = [some "a", some "d"] ∧
      ∀ c ∈ s.walk, ∀ text ∈ naming? (c.head.comments.map (·.text)), IsOneLine text :=
    exists_ok_of_forall (by decide +kernel) (by decide +kernel)
  obtain ⟨u, hu, hwalk⟩ := ruleName?_readBack blankIndent_default rfl hs
  refine ⟨s, u, hs, hu, hnames, List.forall₂_iff_get.2 ⟨hwalk.length_eq, fun i hi hi' => ?_⟩⟩
  exact ((List.forall₂_iff_get.1 hwalk).2 i hi hi').2 (hone _ (List.get_mem _ _))

/-- A label that runs over the end of a line. -/
def broken : String := "/* rule:\n[x] */ keep;"

/-- A label that runs over the end of a line is lost: neither of its lines is a label. -/
theorem ruleName?_lost :
    ∃ s u, Script.ofText broken "f" .default = .ok s ∧
      Script.ofText (s.text .default) "f" .default = .ok u ∧
      s.walk.map (·.head.ruleName?) = [some "x"] ∧ u.walk.map (·.head.ruleName?) = [none] := by
  obtain ⟨s, hs, hnames, htext⟩ : ∃ s, Script.ofText broken "f" .default = .ok s ∧
      s.walk.map (·.head.ruleName?) = [some "x"] ∧ s.text .default = "# rule:\n#[x]\nkeep;\n" :=
    exists_ok_of_forall (by decide +kernel) (by decide +kernel)
  obtain ⟨u, hu, hlost⟩ : ∃ u, Script.ofText "# rule:\n#[x]\nkeep;\n" "f" .default = .ok u ∧
      u.walk.map (·.head.ruleName?) = [none] :=
    exists_ok_of_forall (by decide +kernel) (by decide +kernel)
  exact ⟨s, u, hs, by rw [htext, hu], hnames, hlost⟩

end MailFilter
