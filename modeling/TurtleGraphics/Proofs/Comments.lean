import TurtleGraphics.Proofs.Casing
import TurtleGraphics.Proofs.Grammar
import TurtleGraphics.Proofs.Nesting

/-!
# Comments in Written Skeletons

A comment begins with a hash mark and goes to the end of its line. Put between two nodes of a
written skeleton it should make no difference to the commands that are read.

Two readers come across it. The one that cuts a text into statements knows what a comment is
and passes over it. The one that looks for the end of a body does not: it counts all braces on
its way, those in comments as well. So a comment outside of bodies can say whatever it likes,
and one inside of a body makes no difference if its braces are balanced.

If they are not, it does make a difference, and one skeleton, the probe, shows it for all of
them. Put behind the opening brace of a loop, a comment that closes too much ends the body
within itself, and the loop is left empty. A comment that opens too much takes the end of the
loop and all that comes behind it into the body. The two cases are the two ways in which a
text can fail to be balanced.

Texts are put into upper case before they are read. That can make a text longer, but it
neither adds nor takes away braces and ends of lines.

## Main definitions

* `writeComment`: A comment as a text.
* `Commented`: A skeleton that is written down with comments between its nodes.
* `probe`, `commentedProbe`: The skeleton that shows the difference.

## Theorems

* `balanced_upperCase_iff`: Upper case makes no difference to whether braces are balanced.
* `outline_comment`: A comment is one statement.
* `Commented.finds_commandsOf`: Comments with balanced braces make no difference.
* `early_close`, `late_close`: Comments with other braces do.
* `comments_discarded_iff`: Which comments make no difference to the commands of a skeleton.
-/

namespace TurtleGraphics

theorem brackets_upperChar (c : Char) :
    Delimiter.curly.brackets (Text.upperChar c) = Delimiter.curly.brackets [c] := by
  by_cases hmark : c ∈ Text.marks
  · rw [Text.upperChar_of_mem_marks hmark]
  · have hne : ∀ mark ∈ Text.marks, c ≠ mark := fun mark hmem heq => hmark (heq ▸ hmem)
    have hopening := hne '\x7b' (by decide)
    have hclosing := hne '\x7d' (by decide)
    rw [Delimiter.brackets_eq_nil (Text.not_mem_upperChar (by decide) hopening)
      (Text.not_mem_upperChar (by decide) hclosing)]
    exact (Delimiter.brackets_eq_nil (fun hmem => hopening (List.mem_singleton.mp hmem).symm)
      (fun hmem => hclosing (List.mem_singleton.mp hmem).symm)).symm

theorem brackets_upperCase (text : List Char) :
    Delimiter.curly.brackets (Text.upperCase text) = Delimiter.curly.brackets text := by
  induction text with
  | nil => rfl
  | cons c text ih =>
      change Delimiter.curly.brackets (Text.upperChar c ++ Text.upperCase text) =
        Delimiter.curly.brackets ([c] ++ text)
      rw [Delimiter.brackets_append, Delimiter.brackets_append, brackets_upperChar, ih]

/-- Braces are balanced in upper case if they are balanced. -/
theorem balanced_upperCase_iff (text : List Char) :
    Balanced .curly (Text.upperCase text) ↔ Balanced .curly text := by
  rw [← balanced_brackets_iff, brackets_upperCase, balanced_brackets_iff]

/-- A comment as a text. -/
def writeComment (t : List Char) : List Char := '#' :: (t ++ ['\n'])

theorem upperCase_writeComment (t : List Char) :
    Text.upperCase (writeComment t) = writeComment (Text.upperCase t) := by
  change '#' :: Text.upperCase (t ++ ['\n']) = _
  rw [Text.upperCase_append]
  rfl

theorem upperCase_opened {code : Char} (h : code ∈ codeMarks) (text : List Char) :
    Text.upperCase (code :: text) = code :: Text.upperCase text := by
  have hcode := compounding_upperCase.code code h
  rw [← List.singleton_append, Text.upperCase_append, hcode]
  rfl

theorem upperCase_block (params : List ParamText) (inside text : List Char) :
    Text.upperCase (writeParams params ++ (inBraces inside ++ text)) =
      writeParams params ++ (inBraces (Text.upperCase inside) ++ Text.upperCase text) := by
  have hinside : Text.upperCase (inBraces inside) = inBraces (Text.upperCase inside) := by
    change '\x7b' :: Text.upperCase (inside ++ ['\x7d']) = _
    rw [Text.upperCase_append]
    rfl
  rw [Text.upperCase_append, Text.upperCase_append, compounding_upperCase.writeParams, hinside]

/-- A skeleton that is written down with comments between its nodes, in front of them and
    behind them. Comments inside of bodies are as `inner` says, and all others are
    arbitrary. -/
inductive Commented (inner : List Char → Prop) :
    (inBody : Bool) → List Node → List Char → Prop where
  | nil {inBody : Bool} : Commented inner inBody [] []
  | comment {inBody : Bool} {nodes : List Node} {text : List Char} (t : List Char)
      (hline : '\n' ∉ t) (hinner : inBody = true → inner t)
      (h : Commented inner inBody nodes text) :
      Commented inner inBody nodes (writeComment t ++ text)
  | bodiless {inBody : Bool} {nodes : List Node} {text : List Char} (n : Node)
      (hn : n.nesting = 0) (h : Commented inner inBody nodes text) :
      Commented inner inBody (n :: nodes) (n.write ++ text)
  | loop {inBody : Bool} {body nodes : List Node} {inside text : List Char}
      (params : List ParamText) (hbody : Commented inner true body inside)
      (h : Commented inner inBody nodes text) :
      Commented inner inBody (.loop params body :: nodes)
        ('R' :: (writeParams params ++ (inBraces inside ++ text)))
  | condition {inBody : Bool} {body nodes : List Node} {inside text : List Char}
      (params : List ParamText) (hbody : Commented inner true body inside)
      (h : Commented inner inBody nodes text) :
      Commented inner inBody (.condition params body :: nodes)
        ('?' :: (writeParams params ++ (inBraces inside ++ text)))
  | define {inBody : Bool} {body nodes : List Node} {inside text : List Char} (name : Name)
      (params : List ParamText) (hbody : Commented inner true body inside)
      (h : Commented inner inBody nodes text) :
      Commented inner inBody (.define name params body :: nodes)
        ('@' :: (name.chars ++ (writeParams params ++ (inBraces inside ++ text))))

/-- The statement of a comment. -/
def commentStatement : Statement := ⟨.comment, none, {}, .absent, ⟨0, 0⟩⟩

/-- A comment is one statement, and what comes next is behind the end of its line. -/
theorem outline_hash (text : List Char) :
    outline ('#' :: text) =
      .statement commentStatement :: outline ((text.dropWhile (· != '\n')).drop 1) :=
  outline_of_read (show Code.ofChar? '#' = some .comment from rfl) ⟨rfl, rfl⟩

theorem dropWhile_line {t : List Char} (h : '\n' ∉ t) (rest : List Char) :
    (t ++ rest).dropWhile (· != '\n') = rest.dropWhile (· != '\n') := by
  refine List.dropWhile_append_of_pos fun c hc => ?_
  rw [bne_iff_ne]
  exact fun heq => h (heq ▸ hc)

theorem outline_comment {t : List Char} (h : '\n' ∉ t) (text : List Char) :
    outline (writeComment t ++ text) = .statement commentStatement :: outline text := by
  rw [writeComment, List.cons_append, List.append_assoc, outline_hash, dropWhile_line h]
  rfl

/-- A comment on the last line, which has no end. -/
theorem outline_comment_last {t : List Char} (h : '\n' ∉ t) :
    outline ('#' :: t) = [.statement commentStatement] := by
  have hdrop := dropWhile_line h []
  rw [List.append_nil] at hdrop
  rw [outline_hash, hdrop]
  exact congrArg _ outline_nil

/-- A comment has no command and nothing wrong with it. -/
theorem finds_commandsOf_comment {nested : Block → Noted (List Command)} {items : List Item}
    {commands : List Command} {causes : List Fault}
    (h : (commandsOf nested items).Finds commands causes) :
    (commandsOf nested (.statement commentStatement :: items)).Finds commands causes := by
  refine ⟨?_, ?_⟩
  · have hvalue := h.value
    rw [value_commandsOf] at hvalue ⊢
    exact hvalue
  · have hcauses := h.causes
    rw [causes_commandsOf] at hcauses ⊢
    exact hcauses

namespace Commented

variable {inner : List Char → Prop} {inBody : Bool} {nodes : List Node} {text : List Char}

theorem starts (h : Commented inner inBody nodes text) : Starts text := by
  cases h with
  | nil => exact nofun
  | comment t hline hinner h =>
      intro c hc
      cases hc
      decide
  | bodiless n hn h => exact starts_write n _
  | loop | condition | define => exact starts_of_code (by decide) _

/-- Where comments have balanced braces, reading a body goes through them. -/
theorem passes (h : Commented (Balanced .curly) inBody nodes text) (hbody : inBody = true) :
    Passes .curly (fun _ => false) text := by
  induction h with
  | nil => exact .nil
  | comment t hline hinner h ih =>
      have ht : Passes .curly (fun _ => false) t := .of_balanced (hinner hbody) fun _ _ => rfl
      have hcomment : Passes .curly (fun _ => false) (writeComment t) :=
        .append (s := ['#']) (.singleton rfl (by decide) (by decide))
          (ht.append (.singleton rfl (by decide) (by decide)))
      exact hcomment.append (ih hbody)
  | bodiless n hn h ih => exact (compounding_passes.write n).append (ih hbody)
  | loop params hinside h ihinside ih =>
      refine .append (s := ['R']) (compounding_passes.code 'R' (by decide)) ?_
      refine (compounding_passes.writeParams params).append ?_
      exact (compounding_passes.inBraces (ihinside rfl)).append (ih hbody)
  | condition params hinside h ihinside ih =>
      refine .append (s := ['?']) (compounding_passes.code '?' (by decide)) ?_
      refine (compounding_passes.writeParams params).append ?_
      exact (compounding_passes.inBraces (ihinside rfl)).append (ih hbody)
  | define name params hinside h ihinside ih =>
      refine .append (s := ['@']) (compounding_passes.code '@' (by decide)) ?_
      refine (compounding_passes.name name).append ?_
      refine (compounding_passes.writeParams params).append ?_
      exact (compounding_passes.inBraces (ihinside rfl)).append (ih hbody)

/-- The commands are those of the skeleton, by induction on the way it was written. -/
theorem finds_commandsOf (h : Commented (Balanced .curly) inBody nodes text) :
    ∀ room, nestingAll nodes ≤ room →
      (commandsOf (nestedAt room) (outline text)).Finds (commandAll nodes) (causeAll nodes) := by
  induction h with
  | nil =>
      intro room _
      rw [outline_nil, commandAll, causeAll]
      exact ⟨rfl, rfl⟩
  | comment t hline hinner h ih =>
      intro room hroom
      rw [outline_comment hline]
      exact finds_commandsOf_comment (ih room hroom)
  | bodiless n hn h ih =>
      intro room hroom
      rw [nestingAll] at hroom
      rw [outline_write n h.starts, commandAll, causeAll]
      exact finds_commandsOf_cons (n.finds_command room (by omega)) (ih room (by omega))
  | @loop _ body nodes inside text params hinside h ihinside ih =>
      intro room hroom
      rw [nestingAll, Node.nesting] at hroom
      have hdeeper : nestingAll body + 1 ≤ room := by omega
      rw [outline_loop (hinside.passes rfl), commandAll, causeAll, Node.command, Node.causes]
      have hbody := finds_nestedAt hdeeper ihinside
      exact finds_commandsOf_cons (finds_loop params hbody) (ih room (by omega))
  | @condition _ body nodes inside text params hinside h ihinside ih =>
      intro room hroom
      rw [nestingAll, Node.nesting] at hroom
      have hdeeper : nestingAll body + 1 ≤ room := by omega
      rw [outline_condition (hinside.passes rfl), commandAll, causeAll, Node.command, Node.causes]
      have hbody := finds_nestedAt hdeeper ihinside
      exact finds_commandsOf_cons (finds_condition params hbody) (ih room (by omega))
  | @define _ body nodes inside text name params hinside h ihinside ih =>
      intro room hroom
      rw [nestingAll, Node.nesting] at hroom
      have hdeeper : nestingAll body + 1 ≤ room := by omega
      rw [outline_define (hinside.passes rfl), commandAll, causeAll, Node.command, Node.causes]
      have hbody := finds_nestedAt hdeeper ihinside
      exact finds_commandsOf_cons (finds_define params hbody name) (ih room (by omega))

/-- What is written with comments is still written with comments in upper case. -/
theorem upperCase {inner' : List Char → Prop}
    (himage : ∀ t, '\n' ∉ t → inner t → inner' (Text.upperCase t))
    (h : Commented inner inBody nodes text) :
    Commented inner' inBody nodes (Text.upperCase text) := by
  induction h with
  | nil => exact .nil
  | @comment inBody nodes text t hline hinner h ih =>
      have hwritten : Text.upperCase (writeComment t ++ text) =
          writeComment (Text.upperCase t) ++ Text.upperCase text := by
        rw [Text.upperCase_append, upperCase_writeComment]
      rw [hwritten]
      refine .comment _ ?_ (fun hbody => himage t hline (hinner hbody)) ih
      rw [Text.mem_upperCase_iff (by decide)]
      exact hline
  | bodiless n hn h ih =>
      rw [Text.upperCase_append, compounding_upperCase.write n]
      exact .bodiless n hn ih
  | loop params hinside h ihinside ih =>
      rw [upperCase_opened (by decide), upperCase_block]
      exact .loop params ihinside ih
  | condition params hinside h ihinside ih =>
      rw [upperCase_opened (by decide), upperCase_block]
      exact .condition params ihinside ih
  | define name params hinside h ihinside ih =>
      rw [upperCase_opened (by decide), Text.upperCase_append, name.upper, upperCase_block]
      exact .define name params ihinside ih

end Commented

theorem value_parse_ofList (source : List Char) :
    (Program.parse (String.ofList source)).value =
      (commandsOf (nestedAt 200) (outline (Text.upperCase source))).value := by
  rw [Program.parse, String.toList_ofList]
  exact (alike_commandsAt _ 0 _).value

/-- Home, which is a node that ends with its code. -/
def homeNode : Node := .plain .home []

theorem writeAll_homeNode : writeAll [homeNode] = ['H'] := by
  simp only [writeAll, homeNode, Node.write]
  rfl

/-- A loop around a node, with another node behind it. -/
def probe : List Node := [.loop [oneText] [homeNode], homeNode]

/-- The same with a comment in front of the node inside of the loop. -/
def commentedProbe (t : List Char) : List Char :=
  'R' :: (writeParams [oneText] ++
    (inBraces (writeComment t ++ writeAll [homeNode]) ++ writeAll [homeNode]))

theorem commented_homeNode (inner : List Char → Prop) (inBody : Bool) :
    Commented inner inBody [homeNode] (writeAll [homeNode]) := by
  rw [writeAll, writeAll]
  exact .bodiless homeNode rfl .nil

theorem commented_commentedProbe {inner : List Char → Prop} {t : List Char} (hline : '\n' ∉ t)
    (h : inner t) : Commented inner false probe (commentedProbe t) :=
  .loop [oneText] (.comment t hline (fun _ => h) (commented_homeNode _ true))
    (commented_homeNode _ false)

theorem upperCase_commentedProbe (t : List Char) :
    Text.upperCase (commentedProbe t) = commentedProbe (Text.upperCase t) := by
  rw [commentedProbe, upperCase_opened (by decide), upperCase_block, Text.upperCase_append,
    upperCase_writeComment, upperCase_writeAll]
  rfl

/-- The loop of the probe is read with whatever the reader of its body takes. -/
theorem outline_commentedProbe (t : List Char) :
    let e := Enclosed.read .curly (fun _ => false) ('#' :: (t ++ ['\n', 'H', '\x7d', 'H']))
    outline (commentedProbe t) =
      .statement ⟨.loop, none, listed [oneText], .block ⟨0, e.inside, e.closed⟩, ⟨0, 0⟩⟩ ::
        outline e.rest := by
  have htext : commentedProbe t =
      'R' :: (writeParams [oneText] ++ '\x7b' :: ('#' :: (t ++ ['\n', 'H', '\x7d', 'H']))) := by
    simp only [commentedProbe, writeAll_homeNode, inBraces, writeComment, List.cons_append,
      List.append_assoc, List.nil_append]
  rw [htext]
  exact outline_of_read rfl (Statement.read_opened (.inl rfl) [oneText] rfl)

/-- A comment that closes too much ends the body within itself, and the loop is empty. -/
theorem early_close {t before after : List Char} (ht : t = before ++ '\x7d' :: after)
    (hline : '\n' ∉ t) (hbalanced : Balanced .curly before) :
    ∃ more, (commandsOf (nestedAt 200) (outline (commentedProbe t))).value =
      .loop (firstArg [oneText] 0.0) [] :: more := by
  have hpasses : Passes .curly (fun _ => false) ('#' :: before) :=
    .append (s := ['#']) (.singleton rfl (by decide) (by decide))
      (.of_balanced hbalanced fun _ _ => rfl)
  have hread : Enclosed.read .curly (fun _ => false) ('#' :: (t ++ ['\n', 'H', '\x7d', 'H'])) =
      ⟨'#' :: before, true, after ++ ['\n', 'H', '\x7d', 'H']⟩ := by
    rw [ht, List.append_assoc, List.cons_append]
    exact hpasses.read_eq rfl _
  have hbefore : '\n' ∉ before := by
    intro hmem
    exact hline (ht ▸ List.mem_append_left _ hmem)
  have hbody : (nestedAt 200 ⟨0, '#' :: before, true⟩).Finds [] [] := by
    refine finds_nestedAt (Nat.succ_le_succ (Nat.zero_le 199)) fun left _ => ?_
    rw [outline_comment_last hbefore]
    exact finds_commandsOf_comment ⟨rfl, rfl⟩
  have hloop := (finds_loop [oneText] hbody).value
  rw [outline_commentedProbe, hread, value_commandsOf, List.filterMap_cons]
  simp only [Item.command, hloop]
  exact ⟨_, rfl⟩

/-- A comment that opens too much takes all that comes behind it into the body. -/
theorem late_close {t : List Char} (hcovered : Covered .curly 0 '\x7d' t)
    (hcount : t.count '\x7d' < t.count '\x7b') :
    (commandsOf (nestedAt 200) (outline (commentedProbe t))).value.length ≤ 1 := by
  have hopen : 1 ≤ t.foldl Delimiter.curly.level 0 := by
    have hlevel := Covered.foldl_level (d := .curly) hcovered
    change _ + t.count '\x7d' = 0 + t.count '\x7b' at hlevel
    omega
  have htail : Covered .curly 1 '\x7d' ['\n', 'H', '\x7d', 'H'] := by decide
  have hall : Covered .curly 0 '\x7d' (['#'] ++ (t ++ ['\n', 'H', '\x7d', 'H'])) :=
    Covered.append (d := .curly) (by decide) (Covered.append hcovered (htail.mono hopen))
  -- The closing brace of the loop is used up, and the text ends before there is another.
  have hrest : (Enclosed.read .curly (fun _ => false)
      ('#' :: (t ++ ['\n', 'H', '\x7d', 'H']))).rest = [] := by
    have hread := Enclosed.readFrom_of_covered [] [] hall fun _ _ => (rfl : false = false)
    rw [List.append_nil] at hread
    exact congrArg Enclosed.rest hread
  rw [outline_commentedProbe, hrest, outline_nil, value_commandsOf]
  exact List.length_filterMap_le _ _

/-- A comment inside of a body that is not balanced changes what is read. -/
theorem value_commentedProbe_ne {t : List Char} (hline : '\n' ∉ t) (h : ¬ Balanced .curly t) :
    (Program.parse (String.ofList (commentedProbe t))).value ≠ commandAll probe := by
  have hmeant : commandAll probe =
      [.loop (firstArg [oneText] 0.0) (commandAll [homeNode]), homeNode.command] := by
    simp only [probe, commandAll, Node.command]
  have hupper : ¬ Balanced .curly (Text.upperCase t) := mt (balanced_upperCase_iff t).mp h
  have hline' : '\n' ∉ Text.upperCase t := mt (Text.mem_upperCase_iff (by decide) t).mp hline
  rw [value_parse_ofList, upperCase_commentedProbe, hmeant]
  intro heq
  by_cases hcovered : Covered .curly 0 '\x7d' (Text.upperCase t)
  · -- As it closes no more than it opens, it opens more than it closes.
    have hcount : (Text.upperCase t).count '\x7d' < (Text.upperCase t).count '\x7b' := by
      have hlevel := Covered.foldl_level (d := .curly) hcovered
      change _ + (Text.upperCase t).count '\x7d' = 0 + (Text.upperCase t).count '\x7b' at hlevel
      have hne : (Text.upperCase t).count '\x7b' ≠ (Text.upperCase t).count '\x7d' :=
        fun hsame => hupper ⟨hcovered, hsame⟩
      omega
    have hlength := late_close hcovered hcount
    rw [heq] at hlength
    exact absurd hlength (by decide)
  · rcases exists_of_not_covered (d := .curly) hcovered with ⟨before, after, ht, hbefore, hlevel⟩
    have hbalanced : Balanced .curly before := by
      have hcount := hbefore.foldl_level
      refine ⟨hbefore, ?_⟩
      omega
    rcases early_close ht hline' hbalanced with ⟨more, hvalue⟩
    rw [hvalue] at heq
    injection heq with hhead
    injection hhead with _ hbody
    rw [commandAll] at hbody
    cases hbody

/-- Comments that are put between the nodes of a written skeleton, in front of them or behind
    them, on any level, leave its commands as they are exactly if the braces of all those that
    may stand inside of bodies are balanced. -/
theorem comments_discarded_iff (inner : List Char → Prop) :
    (∀ (nodes : List Node) (source : List Char), Commented inner false nodes source →
      nestingAll nodes ≤ 200 →
      (Program.parse (String.ofList source)).value =
        (Program.parse (String.ofList (writeAll nodes))).value) ↔
    ∀ t : List Char, '\n' ∉ t → inner t → Balanced .curly t := by
  have hmeant : ∀ nodes, nestingAll nodes ≤ 200 →
      (Program.parse (String.ofList (writeAll nodes))).value = commandAll nodes := by
    intro nodes hnesting
    rw [value_parse_ofList, upperCase_writeAll]
    exact (finds_commandsOf nodes 200 hnesting).value
  constructor
  · intro hsame t hline ht
    have hnesting : nestingAll probe ≤ 200 := by decide
    have hvalue := hsame probe _ (commented_commentedProbe hline ht) hnesting
    rw [hmeant probe hnesting] at hvalue
    exact Decidable.byContradiction fun hne => value_commentedProbe_ne hline hne hvalue
  · intro hbalanced nodes source hsource hnesting
    have hupper : Commented (Balanced .curly) false nodes (Text.upperCase source) :=
      hsource.upperCase fun t hline ht => (balanced_upperCase_iff t).mpr (hbalanced t hline ht)
    rw [hmeant nodes hnesting, value_parse_ofList]
    exact (hupper.finds_commandsOf 200 hnesting).value

/-- Two comments with single braces outside of the loop and one with both inside of it. With
    a single brace inside of bodies there would be a difference. -/
theorem comments_discarded_iff_loop :
    (Program.parse "#\x7d\nR(1)\x7b#\x7b\x7d\nH\x7d#\x7b\nH").value =
        (Program.parse "R(1)\x7bH\x7dH").value ∧
      ¬ ∀ (nodes : List Node) (source : List Char), Commented (· = ['\x7d']) false nodes source →
        nestingAll nodes ≤ 200 →
        (Program.parse (String.ofList source)).value =
          (Program.parse (String.ofList (writeAll nodes))).value := by
  refine ⟨?_, fun hsame => ?_⟩
  · have hcommented : Commented (Balanced .curly) false probe
        (writeComment ['\x7d'] ++ 'R' :: (writeParams [oneText] ++
          (inBraces (writeComment ['\x7b', '\x7d'] ++ writeAll [homeNode]) ++
            (writeComment ['\x7b'] ++ writeAll [homeNode])))) :=
      .comment _ (by decide) nofun (.loop _
        (.comment _ (by decide) (fun _ => by decide) (commented_homeNode _ true))
        (.comment _ (by decide) nofun (commented_homeNode _ false)))
    have hvalue := (comments_discarded_iff _).mpr (fun _ _ ht => ht) probe _ hcommented (by decide)
    rw [writeAll_homeNode] at hvalue
    exact hvalue
  · have hbalanced := (comments_discarded_iff _).mp hsame ['\x7d'] (by decide) rfl
    exact absurd hbalanced (by decide)

end TurtleGraphics
