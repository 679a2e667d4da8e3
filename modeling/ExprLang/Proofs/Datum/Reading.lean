import ExprLang.Proofs.Datum.Spelling

/-!
# Reading inverts writing

A written datum is cut into the tokens that it was written with, because nothing that follows a
part of it can belong to that part, and the tokens are put together as they were taken apart. Main
statement: every datum whose atoms can be read is read back from its text, and whatever is read
from an ASCII text is such a datum.
-/

namespace ExprLang.Datum

/-- All atoms of a datum can be read. -/
inductive Readable : Datum → Prop
  | symbol {text : Bytes} (name : IsSymbol text) : Readable (.symbol text)
  | string {text : Bytes} (plain : IsPlain text) : Readable (.string text)
  | integer {text : Bytes} (numeral : IsNumeral text) : Readable (.integer text)
  | ellipsis : Readable .ellipsis
  | list {items : List Datum} (all : ∀ item ∈ items, Readable item) : Readable (.list items)
  | array {items : List Datum} (all : ∀ item ∈ items, Readable item) : Readable (.array items)

/-! ## Tokens of a datum -/

mutual

def lexemes : Datum → List Token
  | list items => .opening .round :: (lexemesAll items ++ [.closing .round])
  | array items => .opening .square :: (lexemesAll items ++ [.closing .square])
  | atom => [.atom atom]

def lexemesAll : List Datum → List Token
  | [] => []
  | item :: items => item.lexemes ++ lexemesAll items

end

theorem renderAll_eq_map (items : List Datum) : renderAll items = items.map render := by
  induction items with
  | nil => rfl
  | cons item items induction => rw [renderAll, induction, List.map_cons]

theorem render_list (items : List Datum) :
    (list items).render = Kind.list.write [] (items.map render) := by
  rw [render, renderAll_eq_map]

theorem spaced_cons_cons (first second : Bytes) (others : List Bytes) :
    Kind.spaced (first :: second :: others) = first ++ 32 :: Kind.spaced (second :: others) := by
  simp [Kind.spaced, List.intercalate]

mutual

theorem tokens_render {datum : Datum} (readable : datum.Readable) {rest : Bytes}
    (delimited : Delimited rest) :
    Token.tokens (datum.render ++ rest) = datum.lexemes ++ Token.tokens rest := by
  cases readable with
  | symbol name => exact Token.spells_symbol (isSymbol_iff.mp name) rest delimited
  | string plain => exact Token.spells_string plain rest delimited
  | integer numeral => exact Token.spells_integer numeral rest delimited
  | ellipsis => exact Token.spells_ellipsis rest delimited
  | @list items all =>
      have opening := Token.tokens_bracket 40 rfl
      have closing := Token.tokens_bracket 41 rfl
      simp only [render, Kind.write, lexemes, List.append_assoc, List.cons_append,
        List.nil_append, opening, closing,
        tokens_spaced all (delimited_cons rest (by decide : isDelimiter 41 = true))]
  | @array items all =>
      have opening := Token.tokens_bracket 91 rfl
      have closing := Token.tokens_bracket 93 rfl
      simp only [render, Kind.write, lexemes, List.append_assoc, List.cons_append,
        List.nil_append, opening, closing,
        tokens_spaced all (delimited_cons rest (by decide : isDelimiter 93 = true))]

theorem tokens_spaced {items : List Datum} (readable : ∀ item ∈ items, Readable item)
    {rest : Bytes} (delimited : Delimited rest) :
    Token.tokens (Kind.spaced (renderAll items) ++ rest) =
      lexemesAll items ++ Token.tokens rest := by
  match items with
  | [] => rfl
  | [item] =>
      have here := tokens_render (readable item List.mem_cons_self) delimited
      simpa [renderAll, Kind.spaced, lexemesAll] using here
  | item :: next :: others =>
      have here := tokens_render (readable item List.mem_cons_self)
        (delimited_cons (Kind.spaced (renderAll (next :: others)) ++ rest)
          (by decide : isDelimiter 32 = true))
      have there := @tokens_spaced (next :: others) (fun other member =>
        readable other (List.mem_cons_of_mem _ member)) _ delimited
      rw [Token.tokens_blank, there] at here
      rw [renderAll, renderAll, spaced_cons_cons, List.append_assoc, List.cons_append,
        ← renderAll, here, ← List.append_assoc]
      rfl

end

/-! ## Data made of tokens -/

/-- A datum is complete: it is the result, or an item of the innermost open bracket. -/
def deliver (datum : Datum) : List Opened → List Token → Except DatumError Datum
  | [], rest => conclude datum rest
  | opened :: outer, rest =>
    assemble ({ opened with items := datum :: opened.items } :: outer) rest

theorem assemble_closing (opened : Opened) (outer : List Opened) (rest : List Token) :
    assemble (opened :: outer) (.closing opened.bracket :: rest) =
      deliver (opened.bracket.wrap opened.items.reverse) outer rest := by
  cases outer <;> simp [assemble, deliver]

theorem assemble_atom {atom : Datum} (stack : List Opened) (rest : List Token) :
    assemble stack (.atom atom :: rest) = deliver atom stack rest := by
  cases stack <;> rfl

mutual

theorem assemble_lexemes (datum : Datum) (stack : List Opened) (rest : List Token) :
    assemble stack (datum.lexemes ++ rest) = deliver datum stack rest := by
  cases datum with
  | symbol | string | integer | ellipsis => exact assemble_atom stack rest
  | list items =>
      rw [lexemes, List.cons_append, List.append_assoc, assemble, assemble_lexemesAll items]
      refine (assemble_closing ⟨.round, _⟩ stack rest).trans ?_
      rw [List.append_nil, List.reverse_reverse, Bracket.wrap]
  | array items =>
      rw [lexemes, List.cons_append, List.append_assoc, assemble, assemble_lexemesAll items]
      refine (assemble_closing ⟨.square, _⟩ stack rest).trans ?_
      rw [List.append_nil, List.reverse_reverse, Bracket.wrap]

theorem assemble_lexemesAll (items : List Datum) (opened : Opened) (outer : List Opened)
    (rest : List Token) :
    assemble (opened :: outer) (lexemesAll items ++ rest) =
      assemble ({ opened with items := items.reverse ++ opened.items } :: outer) rest := by
  cases items with
  | nil => rfl
  | cons item items =>
      rw [lexemesAll, List.append_assoc, assemble_lexemes item, deliver,
        assemble_lexemesAll items]
      simp

end

/-! ## Reading back -/

mutual

theorem ne_zero_of_mem_render {datum : Datum} (readable : datum.Readable) :
    ∀ byte ∈ datum.render, byte ≠ 0 := by
  cases readable with
  | symbol name => exact (isSymbol_iff.mp name).ne_zero
  | integer numeral => exact numeral.ne_zero
  | ellipsis =>
      rw [render, Token.write_ellipsis]
      simp
  | string plain =>
      have inner := fun byte member => (plain.escape byte member).1
      simpa [render, Kind.write, or_imp, forall_and] using inner
  | list all | array all =>
      have inner := ne_zero_of_mem_spaced all
      simpa [render, Kind.write, or_imp, forall_and] using inner

theorem ne_zero_of_mem_spaced {items : List Datum} (readable : ∀ item ∈ items, Readable item) :
    ∀ byte ∈ Kind.spaced (renderAll items), byte ≠ 0 := by
  match items with
  | [] => simp [renderAll, Kind.spaced]
  | [item] =>
      have here := ne_zero_of_mem_render (readable item List.mem_cons_self)
      simpa [renderAll, Kind.spaced] using here
  | item :: next :: others =>
      have here := ne_zero_of_mem_render (readable item List.mem_cons_self)
      have there := @ne_zero_of_mem_spaced (next :: others) fun other member =>
        readable other (List.mem_cons_of_mem _ member)
      rw [renderAll, renderAll, spaced_cons_cons, ← renderAll]
      intro byte member
      rcases List.mem_append.mp member with front | behind
      · exact here byte front
      · rcases List.mem_cons.mp behind with rfl | later
        · decide
        · exact there byte later

end

theorem parse_render {datum : Datum} (readable : datum.Readable) :
    parse datum.render = .ok datum := by
  have whole : datum.render.takeWhile (· != 0) = datum.render :=
    List.takeWhile_eq_self_iff.mpr fun byte member => by
      simpa using ne_zero_of_mem_render readable byte member
  have cut := tokens_render readable delimited_nil
  rw [List.append_nil, Token.tokens_nil] at cut
  rw [parse, Token.ofText, whole, cut, assemble_lexemes, deliver, conclude]

/-! ## Data that are read -/

theorem readable_wrap {bracket : Bracket} {items : List Datum}
    (readable : ∀ item ∈ items, Readable item) : (bracket.wrap items).Readable := by
  cases bracket with
  | round => exact .list readable
  | square => exact .array readable

theorem eq_of_conclude {datum result : Datum} {tokens : List Token}
    (concluded : conclude datum tokens = .ok result) : result = datum := by
  cases tokens with
  | nil =>
      cases concluded
      rfl
  | cons token tokens => cases token <;> cases concluded

theorem readable_of_assemble {stack : List Opened} {tokens : List Token} {result : Datum}
    (atoms : ∀ atom, .atom atom ∈ tokens → atom.Readable)
    (inside : ∀ opened ∈ stack, ∀ item ∈ opened.items, Readable item)
    (assembled : assemble stack tokens = .ok result) : result.Readable := by
  have later : ∀ {token : Token} {rest : List Token},
      (∀ atom, Token.atom atom ∈ token :: rest → atom.Readable) →
      ∀ atom, Token.atom atom ∈ rest → atom.Readable :=
    fun atoms atom member => atoms atom (List.mem_cons_of_mem _ member)
  fun_induction assemble stack tokens with
  | case1 | case2 | case3 | case7 | case10 => cases assembled
  | case4 stack bracket rest induction =>
      exact induction (later atoms) (List.forall_mem_cons.mpr ⟨by simp, inside⟩) assembled
  | case5 datum rest =>
      rw [eq_of_conclude assembled]
      exact atoms _ List.mem_cons_self
  | case6 opened outer datum rest induction =>
      obtain ⟨here, others⟩ := List.forall_mem_cons.mp inside
      have added := List.forall_mem_cons.mpr ⟨atoms _ List.mem_cons_self, here⟩
      exact induction (later atoms) (List.forall_mem_cons.mpr ⟨added, others⟩) assembled
  | case8 opened rest =>
      rw [eq_of_conclude assembled]
      refine readable_wrap fun item member => ?_
      exact inside opened List.mem_cons_self item (List.mem_reverse.mp member)
  | case9 opened rest next outer datum induction =>
      obtain ⟨here, others⟩ := List.forall_mem_cons.mp inside
      obtain ⟨behind, others⟩ := List.forall_mem_cons.mp others
      have whole : datum.Readable :=
        readable_wrap fun item member => here item (List.mem_reverse.mp member)
      have added := List.forall_mem_cons.mpr ⟨whole, behind⟩
      exact induction (later atoms) (List.forall_mem_cons.mpr ⟨added, others⟩) assembled

theorem readable_of_parse {source : Bytes} (ascii : ∀ byte ∈ source, byte < 128) {datum : Datum}
    (parsed : parse source = .ok datum) : datum.Readable := by
  refine readable_of_assemble (fun atom member => ?_) (by simp) parsed
  obtain ⟨rest, ⟨front, split⟩, kind⟩ := Token.atom_of_mem_tokens member
  have plain : IsPlain rest := by
    intro byte inside
    have whole : byte ∈ source.takeWhile (· != 0) := by
      rw [← split]
      exact List.mem_append_right _ inside
    exact ⟨by simpa using List.mem_takeWhile_imp whole,
      ascii byte ((List.takeWhile_prefix _).subset whole)⟩
  cases kind with
  | symbol name => exact .symbol ⟨source, member⟩
  | string read => exact .string (isPlain_of_readString plain read)
  | integer numeral => exact .integer numeral
  | ellipsis => exact .ellipsis

/-- A datum is read back from its text if its symbols are texts that can be read as one symbol,
its numerals are digits with at most a sign, and its strings are ASCII without zeros. So what was
read from any ASCII text is read back from what is written of it. -/
theorem reading_inverts_writing :
    (∀ datum : Datum, datum.Readable → parse datum.render = .ok datum) ∧
      ∀ source : Bytes, (∀ byte ∈ source, byte < 128) → ∀ datum, parse source = .ok datum →
        parse datum.render = .ok datum :=
  ⟨fun _ readable => parse_render readable,
    fun _ ascii _ parsed => parse_render (readable_of_parse ascii parsed)⟩

end ExprLang.Datum
