/-
# A value that has been written is read back

Every tree has its tokens, and the machine that builds trees makes it out of them
(`Json.Builder.foldlM_tokens`). A value is written, on one line or over several, in
characters that spell the tokens of its tree (`Json.spells_compact`,
`Json.spells_pretty`), so a written value is read as that tree. That is stated of the values
whose numbers are natural, which are all that a registry writes; a number of more than 64 bits
is read as a double.

Key definitions: `Json.Tree.tokens`, `Json.tree`, `Json.HasNaturals`.
Key theorems: `Json.parse?_of_spells`, `Json.parse?_compact`, `Json.parse?_pretty`.
-/
import ContainerRegistry.Json.Record
import ContainerRegistry.Proofs.JsonText

namespace ContainerRegistry
namespace Json

/-! ### Trees and their tokens -/

namespace Tree

mutual

/-- The tokens of a tree. -/
def tokens : Tree → List Token
  | null => [.null]
  | bool b => [.bool b]
  | number n => [.number n]
  | text s => [.text s]
  | array items => .openArray :: itemTokens items ++ [.closeArray]
  | object members => .openObject :: memberTokens members ++ [.closeObject]

/-- The tokens of items. -/
def itemTokens : List Tree → List Token
  | [] => []
  | [t] => tokens t
  | t :: rest => tokens t ++ .comma :: itemTokens rest

/-- The tokens of members. -/
def memberTokens : List (Option String × Tree) → List Token
  | [] => []
  | [(key, t)] => .text key :: .colon :: tokens t
  | (key, t) :: rest => .text key :: .colon :: tokens t ++ .comma :: memberTokens rest

end

theorem itemTokens_cons_cons (t u : Tree) (rest : List Tree) :
    itemTokens (t :: u :: rest) = tokens t ++ [.comma] ++ itemTokens (u :: rest) := by
  rw [itemTokens]
  · simp
  · exact nofun

theorem memberTokens_cons_cons (key : Option String) (t : Tree) (m : Option String × Tree)
    (rest : List (Option String × Tree)) :
    memberTokens ((key, t) :: m :: rest) =
      [.text key, .colon] ++ tokens t ++ [.comma] ++ memberTokens (m :: rest) := by
  rw [memberTokens]
  · simp
  · exact nofun

end Tree

namespace Builder

/-- An array that has just been opened may also close; any other token begins a value. -/
theorem step_value {stack : List Frame} {mayClose : Bool} {token : Token}
    (h : token ≠ .closeArray) :
    step (.value stack mayClose) token = beginValue stack token := by
  cases token <;> first | exact absurd rfl h | simp [step]

mutual

/-- **A tree is built from its tokens.** -/
theorem foldlM_tokens : ∀ (t : Tree) (stack : List Frame) (mayClose : Bool),
    t.tokens.foldlM step (.value stack mayClose) = some (deliver stack t)
  | .null, _, _ => by simp [Tree.tokens, step_value, beginValue]
  | .bool _, _, _ => by simp [Tree.tokens, step_value, beginValue]
  | .number _, _, _ => by simp [Tree.tokens, step_value, beginValue]
  | .text _, _, _ => by simp [Tree.tokens, step_value, beginValue]
  | .array [], stack, _ => by simp [Tree.tokens, Tree.itemTokens, beginValue, step]
  | .array (t :: rest), stack, _ => by
    have hitems := foldlM_itemTokens (t :: rest) (List.cons_ne_nil t rest) [] stack true
    simp [Tree.tokens, beginValue, hitems, step]
  | .object [], stack, _ => by simp [Tree.tokens, Tree.memberTokens, beginValue, step]
  | .object (m :: rest), stack, _ => by
    obtain ⟨name, hmembers⟩ :=
      foldlM_memberTokens (m :: rest) (List.cons_ne_nil m rest) [] stack true
    simp [Tree.tokens, beginValue, hmembers, step]

theorem foldlM_itemTokens : ∀ items : List Tree, items ≠ [] →
    ∀ (before : List Tree) (stack : List Frame) (mayClose : Bool),
    (Tree.itemTokens items).foldlM step (.value (.array before :: stack) mayClose) =
      some (.more (.array (items.reverse ++ before) :: stack))
  | [t], _, before, stack, mayClose => by
    rw [Tree.itemTokens, foldlM_tokens t]
    rfl
  | t :: u :: rest, _, before, stack, mayClose => by
    have hrest := foldlM_itemTokens (u :: rest) (List.cons_ne_nil u rest) (t :: before) stack false
    rw [Tree.itemTokens_cons_cons]
    simp [foldlM_tokens t, deliver, step, hrest]

theorem foldlM_memberTokens : ∀ members : List (Option String × Tree), members ≠ [] →
    ∀ (before : List (Option String × Tree)) (stack : List Frame) (mayClose : Bool),
    ∃ name, (Tree.memberTokens members).foldlM step (.key stack before mayClose) =
      some (.more (.object (members.reverse ++ before) name :: stack))
  | [(name, t)], _, before, stack, mayClose => by
    refine ⟨name, ?_⟩
    rw [Tree.memberTokens]
    simp [step, foldlM_tokens t, deliver]
  | (name, t) :: m :: rest, _, before, stack, mayClose => by
    obtain ⟨last, hrest⟩ :=
      foldlM_memberTokens (m :: rest) (List.cons_ne_nil m rest) ((name, t) :: before) stack false
    refine ⟨last, ?_⟩
    rw [Tree.memberTokens_cons_cons]
    simp [step, foldlM_tokens t, deliver, hrest]

end

end Builder

/-- Characters that spell the tokens of a tree are read as it. -/
theorem parse?_of_spells {cs : List Char} {t : Tree} (h : Spells cs t.tokens) :
    parse? (Bytes.ofChars cs) = some t := by
  simp [parse?, tokens?_of_spells h, Builder.start, Builder.foldlM_tokens, Builder.deliver,
    Builder.tree?]

/-! ### Written values -/

theorem compactItems_cons_cons (v w : Json) (rest : List Json) :
    compactItems (v :: w :: rest) = compactChars v ++ [','] ++ compactItems (w :: rest) := by
  rw [compactItems, List.append_cons]
  exact nofun

theorem compactMembers_cons_cons (key : String) (v : Json) (m : String × Json)
    (rest : List (String × Json)) :
    compactMembers ((key, v) :: m :: rest) =
      quoted key ++ [':'] ++ compactChars v ++ [','] ++ compactMembers (m :: rest) := by
  rw [compactMembers]
  · simp
  · exact nofun

end Json

/-- What a number is read as after it has been written. -/
def JsonNumber.reread (n : JsonNumber) : Option JsonNumber :=
  (Json.spelling? (Bytes.ofChars n.chars)).bind Json.numberOf?

theorem JsonNumber.reread_whole (n : Nat) :
    reread (.whole n) = Json.numberOf? (Json.decimal n) := by
  rw [reread, Json.chars_whole, Json.spelling?_toDigits, Option.bind_some]

namespace Json

mutual

/-- The tree that a value is read as after it has been written. -/
def tree : Json → Tree
  | null => .null
  | bool b => .bool b
  | number n => .number n.reread
  | text s => .text (some s)
  | array items => .array (trees items)
  | object members => .object (memberTrees members)

/-- The trees of items. -/
def trees : List Json → List Tree
  | [] => []
  | v :: rest => tree v :: trees rest

/-- The keys and trees of members. -/
def memberTrees : List (String × Json) → List (Option String × Tree)
  | [] => []
  | (key, v) :: rest => (some key, tree v) :: memberTrees rest

end

mutual

/-- All numbers of a value are natural. -/
def HasNaturals : Json → Prop
  | number n => ∃ k : Nat, n = .whole k
  | array items => ItemsHaveNaturals items
  | object members => MembersHaveNaturals members
  | _ => True

/-- All numbers of items are natural. -/
def ItemsHaveNaturals : List Json → Prop
  | [] => True
  | v :: rest => HasNaturals v ∧ ItemsHaveNaturals rest

/-- All numbers of members are natural. -/
def MembersHaveNaturals : List (String × Json) → Prop
  | [] => True
  | (_, v) :: rest => HasNaturals v ∧ MembersHaveNaturals rest

end

theorem spells_natural {n : JsonNumber} (h : HasNaturals (.number n)) :
    Spells n.chars (tree (.number n)).tokens := by
  obtain ⟨k, rfl⟩ : ∃ k : Nat, n = .whole k := by simpa [HasNaturals] using h
  rw [tree, Tree.tokens, JsonNumber.reread_whole]
  exact spells_whole k

/-- A key with the colon after it. -/
theorem spellsOut_key (key : String) :
    SpellsOut (quoted key ++ [':']) [.text (some key), .colon] :=
  (spellsOut_quoted key).spells.mark (by decide) rfl

/-- Brackets around what spells the tokens between them. -/
theorem spells_array {cs : List Char} {items : List Tree} (h : Spells cs (Tree.itemTokens items)) :
    Spells ('[' :: cs ++ [']']) (Tree.tokens (.array items)) := by
  have hopen : SpellsOut ['['] [.openArray] := SpellsOut.nil.spells.mark (by decide) rfl
  exact ((hopen.append_spells h).mark (by decide) rfl).spells

/-- Braces around what spells the tokens between them. -/
theorem spells_object {cs : List Char} {members : List (Option String × Tree)}
    (h : Spells cs (Tree.memberTokens members)) :
    Spells ('\x7b' :: cs ++ ['\x7d']) (Tree.tokens (.object members)) := by
  have hopen : SpellsOut ['\x7b'] [.openObject] := SpellsOut.nil.spells.mark (by decide) rfl
  exact ((hopen.append_spells h).mark (by decide) rfl).spells

mutual

/-- **A value on one line spells its tree.** -/
theorem spells_compact : ∀ v : Json, v.HasNaturals → Spells (compactChars v) v.tree.tokens
  | .null, _ => spells_null
  | .bool b, _ => spells_bool b
  | .number _, h => spells_natural h
  | .text s, _ => (spellsOut_quoted s).spells
  | .array items, h => by
    rw [compactChars, tree]
    exact spells_array (spells_compactItems items (by simpa [HasNaturals] using h))
  | .object members, h => by
    rw [compactChars, tree]
    exact spells_object (spells_compactMembers members (by simpa [HasNaturals] using h))

theorem spells_compactItems : ∀ items : List Json, ItemsHaveNaturals items →
    Spells (compactItems items) (Tree.itemTokens (trees items))
  | [], _ => SpellsOut.nil.spells
  | [v], h => by
    rw [compactItems]
    exact spells_compact v h.1
  | v :: w :: rest, h => by
    have hfirst := (spells_compact v h.1).mark (c := ',') (by decide) rfl
    rw [compactItems_cons_cons, trees, trees, Tree.itemTokens_cons_cons]
    exact hfirst.append_spells (spells_compactItems (w :: rest) h.2)

theorem spells_compactMembers : ∀ members : List (String × Json), MembersHaveNaturals members →
    Spells (compactMembers members) (Tree.memberTokens (memberTrees members))
  | [], _ => SpellsOut.nil.spells
  | [(key, v)], h => by
    rw [compactMembers, List.append_cons]
    exact (spellsOut_key key).append_spells (spells_compact v h.1)
  | (key, v) :: (key', w) :: rest, h => by
    have hfirst := ((spellsOut_key key).append_spells (spells_compact v h.1)).mark (c := ',')
      (by decide) rfl
    rw [compactMembers_cons_cons, memberTrees, memberTrees, Tree.memberTokens_cons_cons]
    exact hfirst.append_spells (spells_compactMembers ((key', w) :: rest) h.2)

end

/-! ### Values over several lines -/

theorem prettyItems_cons_cons (level : Nat) (v w : Json) (rest : List Json) :
    prettyItems level (v :: w :: rest) =
      newline level ++ prettyChars level v ++ [','] ++ prettyItems level (w :: rest) := by
  rw [prettyItems]
  · simp
  · exact nofun

theorem prettyMembers_cons_cons (level : Nat) (key : String) (v : Json) (m : String × Json)
    (rest : List (String × Json)) :
    prettyMembers level ((key, v) :: m :: rest) =
      newline level ++ (quoted key ++ [':'] ++ [' ']) ++ prettyChars level v ++ [','] ++
        prettyMembers level (m :: rest) := by
  rw [prettyMembers]
  · simp
  · exact nofun

theorem prettyChars_array (level : Nat) {items : List Json} (h : items ≠ []) :
    prettyChars level (.array items) =
      '[' :: (prettyItems (level + 1) items ++ newline level) ++ [']'] := by
  cases items with
  | nil => exact absurd rfl h
  | cons v rest => simp [prettyChars]

theorem prettyChars_object (level : Nat) {members : List (String × Json)} (h : members ≠ []) :
    prettyChars level (.object members) =
      '\x7b' :: (prettyMembers (level + 1) members ++ newline level) ++ ['\x7d'] := by
  cases members with
  | nil => exact absurd rfl h
  | cons m rest => simp [prettyChars]

/-- A new line spells nothing. -/
theorem Spells.newline {cs : List Char} {ts : List Token} (h : Spells cs ts) (level : Nat) :
    SpellsOut (cs ++ Json.newline level) ts := by
  have hblanks : ∀ n, SpellsOut (List.replicate n ' ') [] := by
    intro n
    induction n with
    | zero => exact SpellsOut.nil
    | succ n ih =>
      rw [List.replicate_succ']
      exact ih.spells.blank (by decide) rfl
  have hline := (h.blank (c := '\n') (by decide) rfl).append (hblanks (2 * level))
  simpa [Json.newline] using hline

theorem spellsOut_newline (level : Nat) : SpellsOut (newline level) [] :=
  SpellsOut.nil.spells.newline level

/-- A key with the colon and the blank after it. -/
theorem spellsOut_spacedKey (key : String) :
    SpellsOut (quoted key ++ [':'] ++ [' ']) [.text (some key), .colon] :=
  (spellsOut_key key).spells.blank (by decide) rfl

mutual

/-- **A value over several lines spells its tree.** -/
theorem spells_pretty (level : Nat) : ∀ v : Json, v.HasNaturals →
    Spells (prettyChars level v) v.tree.tokens
  | .null, _ => spells_null
  | .bool b, _ => spells_bool b
  | .number _, h => spells_natural h
  | .text s, _ => (spellsOut_quoted s).spells
  | .array [], _ => by
    rw [prettyChars, tree]
    exact spells_array (show Spells [] (Tree.itemTokens []) from SpellsOut.nil.spells)
  | .array (v :: rest), h => by
    have hitems := spells_prettyItems (level + 1) (v :: rest) (by simpa [HasNaturals] using h)
    rw [prettyChars_array _ (List.cons_ne_nil v rest), tree]
    exact spells_array (hitems.newline level).spells
  | .object [], _ => by
    rw [prettyChars, tree]
    exact spells_object (show Spells [] (Tree.memberTokens []) from SpellsOut.nil.spells)
  | .object (m :: rest), h => by
    have hmembers := spells_prettyMembers (level + 1) (m :: rest) (by simpa [HasNaturals] using h)
    rw [prettyChars_object _ (List.cons_ne_nil m rest), tree]
    exact spells_object (hmembers.newline level).spells

theorem spells_prettyItems (level : Nat) : ∀ items : List Json, ItemsHaveNaturals items →
    Spells (prettyItems level items) (Tree.itemTokens (trees items))
  | [], _ => SpellsOut.nil.spells
  | [v], h => by
    rw [prettyItems]
    exact (spellsOut_newline level).append_spells (spells_pretty level v h.1)
  | v :: w :: rest, h => by
    have hfirst := ((spellsOut_newline level).append_spells (spells_pretty level v h.1)).mark
      (c := ',') (by decide) rfl
    rw [prettyItems_cons_cons, trees, trees, Tree.itemTokens_cons_cons]
    exact hfirst.append_spells (spells_prettyItems level (w :: rest) h.2)

theorem spells_prettyMembers (level : Nat) : ∀ members : List (String × Json),
    MembersHaveNaturals members →
    Spells (prettyMembers level members) (Tree.memberTokens (memberTrees members))
  | [], _ => SpellsOut.nil.spells
  | [(key, v)], h => by
    have hkey := (spellsOut_newline level).append (spellsOut_spacedKey key)
    have hmember := hkey.append_spells (spells_pretty level v h.1)
    simpa [prettyMembers, memberTrees, Tree.memberTokens] using hmember
  | (key, v) :: (key', w) :: rest, h => by
    have hkey := (spellsOut_newline level).append (spellsOut_spacedKey key)
    have hfirst := (hkey.append_spells (spells_pretty level v h.1)).mark (c := ',') (by decide) rfl
    rw [prettyMembers_cons_cons, memberTrees, memberTrees, Tree.memberTokens_cons_cons]
    exact hfirst.append_spells (spells_prettyMembers level ((key', w) :: rest) h.2)

end

/-- **A value on one line is read back.** -/
theorem parse?_compact {v : Json} (h : v.HasNaturals) :
    parse? (Bytes.ofText v.compact) = some v.tree := by
  rw [compact, Bytes.ofText_ofList, parse?_of_spells (spells_compact v h)]

/-- **A value over several lines is read back.** -/
theorem parse?_pretty {v : Json} (h : v.HasNaturals) :
    parse? (Bytes.ofText v.pretty) = some v.tree := by
  rw [pretty, Bytes.ofText_ofList, parse?_of_spells (spells_pretty 0 v h)]

end Json
end ContainerRegistry
