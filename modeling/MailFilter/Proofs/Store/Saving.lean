import MailFilter.Proofs.RoundTrip
import MailFilter.Proofs.Script.Sources
import MailFilter.Proofs.Store.Capabilities
import MailFilter.Proofs.Store.Planting

/-!
# Saving edited scripts

Scripts that were read and edited with parts of scripts that were read have a text, which is read back as
the script.  There is one exception: a command that has become the first one and is a `require` that
declares something.
-/

namespace MailFilter

/-! ## Fronts of scripts -/

namespace Script

variable {α β : Type} {t : Script α} {u : Script β}

/-- Whether the first command of a script is a `require` that declares something itself. -/
def opensWithDeclaration (t : Script α) : Bool :=
  t.commands.head?.any fun c => c.head.keyword? == some .require &&
    Argument.isDeclaration c.head.arguments

theorem opensWithDeclaration_eq_false : t.opensWithDeclaration = false ↔
    ∀ c ∈ t.commands.head?, c.head.keyword? = some .require →
      Argument.isDeclaration c.head.arguments = false := by
  unfold opensWithDeclaration
  cases t.commands.head? <;> simp

theorem isDeclaration_of_alike {as : List (Argument α)} {bs : List (Argument β)}
    (h : Argument.allAlike as bs = true) : Argument.isDeclaration as = Argument.isDeclaration bs := by
  match as, bs with
  | [], [] => rfl
  | [a], [b] =>
      cases a <;> cases b <;> first | rfl | (simp [Argument.allAlike, Argument.alike] at h)
  | a :: a' :: as, b :: b' :: bs => simp [Argument.isDeclaration]
  | [], _ :: _ | _ :: _, [] => simp [Argument.allAlike] at h
  | [a], b :: b' :: bs => simp [Argument.allAlike] at h
  | a :: a' :: as, [b] => simp [Argument.allAlike] at h

theorem opensWithDeclaration_of_alike (h : t.alike u = true) :
    t.opensWithDeclaration = u.opensWithDeclaration := by
  rw [alike, Bool.and_eq_true] at h
  obtain ⟨-, hcommands⟩ := h
  unfold opensWithDeclaration
  cases ht : t.commands with
  | nil =>
      cases hu : u.commands with
      | nil => rfl
      | cons d ds => simp [ht, hu, Command.allAlike] at hcommands
  | cons c cs =>
      cases hu : u.commands with
      | nil => simp [ht, hu, Command.allAlike] at hcommands
      | cons d ds =>
          rw [ht, hu, Command.allAlike, Bool.and_eq_true] at hcommands
          have hhead : c.head.alike d.head = true := by
            have := hcommands.1
            cases c <;> cases d <;> simp_all [Command.alike, Command.head]
          rw [Head.alike, Bool.and_eq_true, beq_iff_eq] at hhead
          simp only [List.head?_cons, Option.any_some, Head.keyword?, hhead.1,
            isDeclaration_of_alike hhead.2]

end Script

namespace Store

open Relation

variable {s s' : Store} {lost : List CommandId} {k : ScriptId} {b : BlockId} {c : CommandId}

/-! ## What comes -/

/-- An argument that stands in a script that was read, whatever its marks. -/
def IsReadArgument (a : Argument Mark Value) : Prop :=
  ∃ (c : Command) (x : Argument Pos), c.IsRead ∧ c.head.Holds x ∧
    a.map (fun _ => ()) id = x.map (fun _ => ()) Value.text

/-- An edit within the usual limit, of which all arguments were read. -/
structure Edit.IsUsual (e : Edit) : Prop where
  limit : ∀ l ∈ e.limit?, l = defaultLimit
  arguments : ∀ a ∈ e.arguments, IsReadArgument a

/-- A script that was read, a command of one, or an edit that brings nothing else. -/
inductive Step.IsUsual : Step → Prop where
  | script {source filename : String} {t : Script}
      (h : Script.ofText source filename .default = .ok t) : IsUsual (.script t)
  | command {t : Command} (h : t.IsRead) : IsUsual (.command t)
  | edit {e : Edit} (h : e.IsUsual) : IsUsual (.edit e)

theorem IsReadArgument.exists_text {a : Argument Mark Value} (h : IsReadArgument a) :
    ∃ y : Argument Mark, a = y.map id Value.text ∧ y.Writable := by
  obtain ⟨c, x, hc, hx, hmap⟩ := h
  obtain ⟨y, ha, hy⟩ := Argument.exists_text a x hmap
  refine ⟨y, ha, ?_⟩
  rw [← Argument.writable_map (fun _ => ()), hy, Argument.writable_map]
  exact hc.printable.head.writable hx

theorem exists_texts {arguments : List (Argument Mark Value)} {seen : List Nat} {u : Unit}
    (hok : s.checkArgumentsAfter c seen arguments = .ok u)
    (hread : ∀ a ∈ arguments, ∃ y : Argument Mark, a = y.map id Value.text ∧ y.Writable) :
    ∃ ys : List (Argument Mark), arguments = Argument.mapAll id Value.text ys ∧
      Argument.PrintableAll ys := by
  induction arguments generalizing seen with
  | nil => exact ⟨[], rfl, trivial⟩
  | cons a arguments ih =>
      rw [List.forall_mem_cons] at hread
      obtain ⟨⟨y, rfl, hy⟩, hread⟩ := hread
      cases y with
      | test t =>
          obtain ⟨_, _, hok⟩ := ok_of_bind hok
          obtain ⟨_, hlast, hok⟩ := ok_of_bind hok
          have hlast := refuseIf_ok hlast
          cases arguments with
          | nil => exact ⟨[.test t], rfl, hy⟩
          | cons => cases hlast
      | foreign => exact hy.elim
      | string | strings | number | tag =>
          obtain ⟨_, _, hok⟩ := ok_of_bind hok
          obtain ⟨_, _, hok⟩ := ok_of_bind hok
          obtain ⟨ys, rfl, hys⟩ := ih hok hread
          exact ⟨_ :: ys, rfl, hy, hys⟩

/-! ## Edits -/

theorem allWritten_list (hall : s.AllWritten) (i : Nat) : (s.list b i c).AllWritten := by
  have hlist : (s.modifyBlock b fun cell =>
      { cell with commands := cell.commands.insertIdx i c }).AllWritten :=
    hall.modifyBlock fun _ => rfl
  exact hlist.modifyCommand fun hc => hc

theorem allWritten_unlist (hall : s.AllWritten) : (s.unlist b c).AllWritten :=
  hall.modifyBlock fun _ => rfl

theorem allWritten_insert (hall : s.AllWritten) {index limit : Value}
    (hok : s.insert b index c limit = .ok s') : s'.AllWritten := by
  obtain ⟨i, -, rfl⟩ := insert_ok hok
  cases (s.command c).block with
  | none => exact allWritten_list hall i
  | some own => exact (allWritten_list hall i).modifyBlock fun _ => rfl

theorem allWritten_remove (hall : s.AllWritten) (hok : s.remove c = .ok s') : s'.AllWritten := by
  obtain ⟨b, -, -, rfl⟩ := remove_ok hok
  have hforgot : (s.forget b c).AllWritten := by
    unfold forget
    split
    · split
      · exact hall.modifyScript _
      · exact hall
    · exact hall
  exact (allWritten_unlist hforgot).modifyCommand fun hc => hc

theorem allWritten_replace (hall : s.AllWritten) {arguments : List (Argument Mark Value)}
    {limit : Value} (hok : s.replace c arguments limit = .ok s')
    (hread : ∀ a ∈ arguments, IsReadArgument a) : s'.AllWritten := by
  obtain ⟨hchecked, rfl⟩ := replace_ok hok
  obtain ⟨ys, rfl, hys⟩ := exists_texts hchecked.proper fun a ha => (hread a ha).exists_text
  refine hall.modifyCommand fun ⟨head, hprint, hhead, hcontrol⟩ => ?_
  refine ⟨{ head with arguments := ys }, ⟨hprint.name, hys⟩, ?_, hcontrol⟩
  rw [hhead]
  rfl

theorem allWritten_nameRule (hall : s.AllWritten) {name : Option Value}
    (hok : s.nameRule c name = .ok s') : s'.AllWritten := by
  obtain ⟨comments, hcomments, rfl⟩ := nameRule_ok hok
  refine hall.modifyCommand fun ⟨head, hprint, hhead, hcontrol⟩ => ?_
  have htexts : ∃ texts : List Comment, comments = texts.map (·.map Value.text) := by
    rw [hhead] at hcomments
    refine ⟨(head.comments.filter fun m => (m.map Value.text).ruleName?.isNone) ++
      (name.map fun v => (⟨" rule:[" ++ v.plain ++ "]", .nowhere⟩ : Comment)).toList, ?_⟩
    rw [hcomments, List.map_append]
    congr 1
    · exact List.filter_map
    · cases name <;> rfl
  obtain ⟨texts, rfl⟩ := htexts
  refine ⟨{ head with comments := texts }, ⟨hprint.name, hprint.arguments⟩, ?_, hcontrol⟩
  rw [hhead]
  rfl

theorem written_require (place : Option BlockId) (m : Mark) :
    CommandCell.Written ⟨⟨.text "require", [], [], m⟩, none, place⟩ := by
  refine ⟨⟨"require", [], [], m⟩, ⟨Layout.isAtom_require, trivial⟩, rfl, ?_⟩
  show Registry.default.isControl? "require" ≠ some true
  rw [Reading.isControl?_require]
  simp

theorem allWritten_declare (hall : s.AllWritten) {name : String} {added : Bool}
    (hok : s.declare k name = .ok (added, s')) : s'.AllWritten := by
  rcases declare_ok hok with rfl | ⟨-, rfl⟩
  · exact hall
  · refine AllWritten.modifyScript ?_ _
    split
    · have hcell := written_require (some (s.script k).block) ⟨.nowhere, s.nextMark⟩
      have hpush : AllWritten { (s.pushCommand _).1 with nextMark := s.nextMark + 1 } :=
        hall.push hcell rfl rfl
      exact hpush.modifyBlock fun _ => rfl
    · exact hall

theorem allWritten_result {e : Edit} (he : e.IsUsual) (hok : e.result s = .ok s')
    (hall : s.AllWritten) : s'.AllWritten := by
  cases e with
  | insert b index c limit => exact allWritten_insert hall (leaving_eq_ok.1 hok)
  | append b c limit => exact allWritten_insert hall (leaving_eq_ok.1 hok)
  | remove c => exact allWritten_remove hall (leaving_eq_ok.1 hok)
  | replace c arguments limit => exact allWritten_replace hall (leaving_eq_ok.1 hok) he.arguments
  | move c b index limit =>
      obtain ⟨source, i, -, rfl⟩ := move_ok hok
      exact allWritten_list (allWritten_unlist hall) i
  | declare k name =>
      obtain ⟨added, hdeclare⟩ := ok_of_declare_result hok
      exact allWritten_declare hall hdeclare
  | requireAll r k =>
      exact (declared_of_result hok).keeps (fun hok hall => allWritten_declare hall hok) hall
  | nameRule c name => exact allWritten_nameRule hall (leaving_eq_ok.1 hok)

theorem allWritten_leads {e : Edit} (he : e.IsUsual) (hleads : e.Leads s s') (hall : s.AllWritten) :
    s'.AllWritten := by
  cases hleads with
  | same => exact hall
  | ok _ hok => exact allWritten_result he hok hall
  | stranded => exact allWritten_unlist hall
  | declared _ hdeclared => exact hdeclared.keeps (fun hok hall => allWritten_declare hall hok) hall

/-! ## Runs -/

/-- Everything in a store can be saved. -/
structure Savable (s : Store) : Prop where
  owned : ∃ lost, s.Owned lost
  written : s.AllWritten
  declares : ∀ k, k < s.scripts.size → s.Declares k
  shallow : ∀ k, k < s.scripts.size → s.Shallow k 64

theorem savable_empty : empty.Savable := by
  refine ⟨⟨[], owned_empty⟩, ⟨nofun, fun b => ⟨[], ?_⟩⟩, nofun, nofun⟩
  rw [block_of_size_le (Nat.zero_le b)]
  rfl

theorem Retains.requireOf? (hsame : Retains s s') (h : s.Owned lost) (hk : k < s.scripts.size) :
    s'.requireOf? k = s.requireOf? k := by
  rw [Store.requireOf?, Store.requireOf?, hsame.script k hk, hsame.list _ (lt_of_owner (h.top k hk))]
  cases hids : (s.block (s.script k).block).commands with
  | nil => rfl
  | cons c ids =>
      have hc : c < s.commands.size := h.command_lt (hids ▸ List.mem_cons_self)
      simp only [List.head?_cons, Option.filter, hsame.command c hc]

theorem Retains.declares (hsame : Retains s s') (h : s.Owned lost) (hk : k < s.scripts.size)
    (hnames : s.Declares k) : s'.Declares k := by
  refine hnames.congr (congrArg ScriptCell.capabilities (hsame.script k hk)) ?_
  rw [hsame.script k hk, hsame.requireOf? h hk]
  exact hnames.held

theorem declares_addScript (h : s.Owned lost) {t : Script} (hprint : t.Printable) :
    (s.addScript t).1.Declares s.scripts.size := by
  have happ := appended_addScript h t
  refine ⟨⟨t.capabilities, ?_, hprint.nodup⟩, ?_⟩
  · rw [happ.script_new]
    rfl
  · rw [happ.script_new, isSome_requireOf?_addScript h]
    by_cases hnone : t.capabilities = []
    · exact .inl (by rw [hnone]; rfl)
    · exact .inr (hprint.declared hnone)

theorem savable_script (hs : s.Savable) {source filename : String} {t : Script}
    (ht : Script.ofText source filename .default = .ok t) : (s.addScript t).1.Savable := by
  obtain ⟨hprint, hdepth⟩ := Reading.printable_of_ofText ht
  obtain ⟨lost, howned⟩ := hs.owned
  have happ := appended_addScript howned t
  have hsize : ∀ {k}, k < (s.addScript t).1.scripts.size → k < s.scripts.size ∨ k = s.scripts.size := by
    intro k hk
    rw [happ.scripts, Array.size_push] at hk
    exact Nat.lt_succ_iff_lt_or_eq.1 hk
  refine ⟨⟨lost, owned_addScript howned t⟩, allWritten_addScript t hprint.commands hs.written,
    fun k hk => ?_, fun k hk => ?_⟩
  · rcases hsize hk with hold | rfl
    · exact happ.retains.declares howned hold (hs.declares k hold)
    · exact declares_addScript howned hprint
  · rcases hsize hk with hold | rfl
    · exact happ.retains.shallow howned hold (hs.shallow k hold)
    · have hheight : Command.heightAll t.commands ≤ 64 := by
        have := hdepth.le (m := 64) (by decide)
        omega
      exact fun c hc => (shallow_addScript howned t c hc).mono hheight

theorem savable_command (hs : s.Savable) {t : Command} (ht : t.IsRead) :
    (s.addCommand none t).1.Savable := by
  obtain ⟨lost, howned⟩ := hs.owned
  have hext := (added_command t none howned.toJoined howned.lt_of_lost).ext
  refine ⟨⟨lost, owned_addCommand howned t⟩, allWritten_addCommand t ht.printable hs.written none,
    fun k hk => ?_, fun k hk => ?_⟩
  · rw [hext.scripts] at hk
    exact hext.retains.declares howned hk (hs.declares k hk)
  · rw [hext.scripts] at hk
    exact hext.retains.shallow howned hk (hs.shallow k hk)

theorem savable_leads (hs : s.Savable) {e : Edit} (he : e.IsUsual) (hleads : e.Leads s s') :
    s'.Savable := by
  obtain ⟨lost, howned⟩ := hs.owned
  refine ⟨exists_owned_leads howned hleads, allWritten_leads he hleads hs.written, fun k hk => ?_,
    fun k hk => ?_⟩
  · rw [scripts_size_leads hleads] at hk
    exact declares_leads howned hk hleads (hs.declares k hk)
  · rw [scripts_size_leads hleads] at hk
    exact shallow_leads howned hk hleads he.limit (hs.shallow k hk)

theorem savable_after (hs : s.Savable) {step : Step} (hstep : step.IsUsual) :
    (s.after step).Savable := by
  cases hstep with
  | script ht => exact savable_script hs ht
  | command ht => exact savable_command hs ht
  | edit he => exact savable_leads hs he (leads_after _)

theorem savable_run {steps : List Step} (hsteps : ∀ t ∈ steps, t.IsUsual) : (run steps).Savable := by
  have hfold : ∀ (steps : List Step) (s : Store), (∀ t ∈ steps, t.IsUsual) → s.Savable →
      (steps.foldl after s).Savable := by
    intro steps
    induction steps with
    | nil => exact fun _ _ hs => hs
    | cons step steps ih =>
        intro s hsteps hs
        obtain ⟨hstep, hrest⟩ := List.forall_mem_cons.1 hsteps
        exact ih _ hrest (savable_after hs hstep)
  exact hfold steps empty hsteps savable_empty

/-! ## Texts -/

theorem fitIndent_blank {o : LayoutOptions} (ho : Layout.BlankIndent o) :
    Layout.fitIndent o = .ok () := by
  obtain ⟨indent, hindent, -⟩ := ho
  rw [Layout.fitIndent, hindent]
  rfl

/-- The tree of a script can be written, unless its first command declares something itself. -/
theorem AllWritten.printable_scriptTree (hall : s.AllWritten) (h : s.Owned lost)
    (hdeclares : s.Declares k) (hfront : (s.scriptTree k).settled.opensWithDeclaration = false) :
    (s.scriptTree k).settled.Printable := by
  obtain ⟨⟨names, hnames, hnodup⟩, hheld⟩ := hdeclares
  have hcapabilities : (s.scriptTree k).settled.capabilities = names := by
    show (s.script k).capabilities.map Value.plain = names
    rw [hnames, List.map_map]
    exact List.map_id names
  have hlt := fun c (hc : c ∈ (s.block (s.script k).block).commands) => h.command_lt hc
  refine ⟨?_, Script.opensWithDeclaration_eq_false.1 hfront, hcapabilities ▸ hnodup, fun hne => ?_⟩
  · rw [settled_scriptTree, Command.printableAll_iff, List.forall_mem_map]
    exact fun c hc => hall.printable_tree h (hlt c hc)
  · rw [hcapabilities] at hne
    rw [hnames, List.map_eq_nil_iff, or_iff_right hne] at hheld
    rw [Script.requireHead?, settled_scriptTree, Option.isSome_filter]
    rw [requireOf?, Option.isSome_filter] at hheld
    cases hids : (s.block (s.script k).block).commands with
    | nil =>
        rw [hids] at hheld
        exact hheld
    | cons c ids =>
        rw [hids] at hheld
        exact (hall.isBareRequire_settled (hlt c (hids ▸ List.mem_cons_self))).trans hheld

theorem Savable.printable (hs : s.Savable) (hk : k < s.scripts.size)
    (hfront : (s.scriptTree k).settled.opensWithDeclaration = false) :
    (s.scriptTree k).settled.Printable := by
  obtain ⟨lost, howned⟩ := hs.owned
  exact hs.written.printable_scriptTree howned (hs.declares k hk) hfront

/-- In a run over what was read, every script has a text, and the text is read back as the script exactly
where its first command is no `require` that declares something itself. -/
theorem run_readBack {steps : List Step} (hsteps : ∀ t ∈ steps, t.IsUsual)
    (hk : k < (run steps).scripts.size) {o : LayoutOptions} (ho : Layout.BlankIndent o)
    (filename : String) :
    ∃ text, (run steps).text o k = .ok text ∧
      ((∃ u, Script.ofText text filename .default = .ok u ∧
          u.alike ((run steps).scriptTree k).settled = true) ↔
        ((run steps).scriptTree k).settled.opensWithDeclaration = false) := by
  have hs := savable_run hsteps
  obtain ⟨lost, howned⟩ := hs.owned
  obtain ⟨names, hnames, -⟩ := (hs.declares k hk).texts
  refine ⟨_, hs.written.text_eq howned hnames (fitIndent_blank ho), fun ⟨u, hu, halike⟩ => ?_,
    fun hfront => ?_⟩
  · have hprint := (Reading.printable_of_ofText hu).1
    rw [← Script.opensWithDeclaration_of_alike halike]
    exact Script.opensWithDeclaration_eq_false.2 hprint.front
  · have hheight : Command.heightAll ((run steps).scriptTree k).settled.commands ≤ 64 :=
      (hs.shallow k hk).heightAll_le
    obtain ⟨u, hu, houtline⟩ := Reading.ofText_of_printable (hs.printable hk hfront) ho filename
      (Reading.permits_of_le .default (show _ ≤ (64 : Int) by omega))
    exact ⟨u, hu, Script.alike_of_outline houtline⟩

/-- A run that reads a script and takes its first command out. -/
def withoutFirst (source : String) : List Step :=
  ((Script.ofText source "f" .default).toOption.toList.map fun t => .script t) ++ [.edit (.remove 0)]

theorem isUsual_withoutFirst (source : String) : ∀ t ∈ withoutFirst source, t.IsUsual := by
  rw [withoutFirst, List.forall_mem_append, List.forall_mem_map, List.forall_mem_singleton]
  refine ⟨fun t ht => .script (eq_ok_of_toOption (Option.mem_toList.1 ht)), .edit ⟨nofun, nofun⟩⟩

theorem run_readBack_stop : ∃ text u, (run (withoutFirst "keep; stop;")).text .default 0 = .ok text ∧
    Script.ofText text "f" .default = .ok u ∧
    u.alike ((run (withoutFirst "keep; stop;")).scriptTree 0).settled = true := by
  obtain ⟨text, htext, hread⟩ := run_readBack (isUsual_withoutFirst "keep; stop;") (k := 0)
    (by decide +kernel) blankIndent_default "f"
  obtain ⟨u, hu, halike⟩ := hread.2 (by decide +kernel)
  exact ⟨text, u, htext, hu, halike⟩

/-- Where the first of two declarations is taken out, the other one becomes that of the script when the
script is read back. -/
theorem remove_misread :
    (∀ t ∈ withoutFirst "require \"a\"; require \"b\";", t.IsUsual) ∧
    ((Edit.remove 0).result (run ((withoutFirst "require \"a\"; require \"b\";").take 1))).isOk = true ∧
    ∃ text u, (run (withoutFirst "require \"a\"; require \"b\";")).text .default 0 = .ok text ∧
      Script.ofText text "f" .default = .ok u ∧ u.capabilities = ["b"] ∧
      u.alike ((run (withoutFirst "require \"a\"; require \"b\";")).scriptTree 0).settled = false := by
  refine ⟨isUsual_withoutFirst _, by decide +kernel, "require \"b\";\n", ?_⟩
  have htext : (run (withoutFirst "require \"a\"; require \"b\";")).text .default 0 =
      .ok "require \"b\";\n" := eq_ok_of_toOption (by decide +kernel)
  obtain ⟨u, hu⟩ := exists_ok_of_isOk
    (show (Script.ofText "require \"b\";\n" "f" .default).isOk = true by decide +kernel)
  have hcapabilities : (Script.ofText "require \"b\";\n" "f" .default).toOption.map (·.capabilities) =
      some ["b"] := by decide +kernel
  have halike : (Script.ofText "require \"b\";\n" "f" .default).toOption.map
      (·.alike ((run (withoutFirst "require \"a\"; require \"b\";")).scriptTree 0).settled) =
      some false := by decide +kernel
  rw [hu] at hcapabilities halike
  exact ⟨u, htext, hu, Option.some.inj hcapabilities, Option.some.inj halike⟩

end Store

end MailFilter
