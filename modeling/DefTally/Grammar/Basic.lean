import DefTally.Grammar.Rule
import DefTally.Grammar.TokenSet

/-!
# Grammars

`Grammar.ofRules` expands one rule per kind of phrase into productions. A repetition gets a
kind of phrase of its own, with the productions `R → R R` and `R → body`, and equal bodies
share it. No production is empty, except that the goal phrase may be.

Two facts about a grammar are computed once: the tokens that can begin a phrase
(`Grammar.starters`) and, for each phrase, the phrases that may begin at its first token with
the tokens that may follow them (`Grammar.spread`).
-/

namespace DefTally

/-- A context-free grammar over numbered tokens and phrases. -/
structure Grammar where
  /-- How many tokens there are. -/
  tokens : Nat
  /-- The token that ends every text. -/
  endOfText : Nat
  /-- The phrase of a whole text. -/
  goal : Nat
  /-- The phrases from this number on are repetitions. -/
  repetitions : Nat
  /-- The productions of every phrase. -/
  productions : Array (List Grammar.Production)

namespace Grammar

/-- The productions of a phrase that has the given rule. -/
def expand (head : Nat) (rule : Rule) : List Production :=
  ((rule.expansions 0 none true).eraseDups).map (⟨head, ·⟩)

/-- The productions of a repetition: two runs of it, or its body once. -/
def expandRepetition (head : Nat) (body : Rule) : List Production :=
  let self : Step := ⟨.phrase head, 0, none⟩
  ⟨head, [self, self]⟩ :: expand head body

/-- The grammar whose phrase number `i` has the rule at position `i`. -/
def ofRules (tokens endOfText goal : Nat) (rules : List Rule) : Grammar :=
  let base := rules.length
  let (rules, naming) := Naming.stripAll ⟨base, []⟩ rules
  { tokens, endOfText, goal, repetitions := base
    productions := (rules.mapIdx expand ++
      naming.bodies.mapIdx fun i body => expandRepetition (base + i) body).toArray }

/-- The kinds of phrase, by number. -/
def phrases (g : Grammar) : List Nat := List.range g.productions.size

/-- The bits of a set of tokens, one of them for the token number `g.tokens`. -/
def setWidth (g : Grammar) : Nat := g.tokens + 1

/-- The sets of a table, one for each phrase. -/
def rows (g : Grammar) (table : TokenTable) : List TokenSet :=
  g.phrases.map (TokenTable.row g.setWidth table)

/-- The tokens that can begin a symbol, given those that can begin each phrase. -/
def beginning (g : Grammar) (starters : TokenTable) : Symbol → TokenSet
  | .token t => .single t
  | .phrase p => starters.row g.setWidth p

/-- Repeats a step until it changes nothing, at most `fuel` times. -/
def settle {α : Type} [BEq α] (step : α → α) : Nat → α → α
  | 0, x => x
  | fuel + 1, x => let y := step x; if y == x then x else settle step fuel y

/-- The symbols that stand first in productions. -/
def firstSymbols (productions : List Production) : List Symbol :=
  (productions.filterMap fun production => production.body.head?.map Step.symbol).eraseDups

/-- Adds to the starters of each phrase those of the symbols that stand first in it. -/
def startersRound (g : Grammar) (firsts : List (List Symbol)) (known : TokenTable) : TokenTable :=
  firsts.zipIdx.foldl (fun table (symbols, p) => table.union (.single g.setWidth p
    (symbols.foldl (fun s x => s.union (g.beginning known x)) 0))) known

/-- The tokens that can begin each phrase. -/
def starters (g : Grammar) : TokenTable :=
  settle (g.startersRound (g.productions.toList.map firstSymbols)) (g.productions.size + 1) 0

/-- What the phrases that may begin where a phrase begins are followed by. -/
structure Lead where
  /-- The tokens that may follow a phrase which is not all of the production. -/
  next : TokenTable
  /-- The token number 0 for each phrase that may be all of a production: it is followed by what
  follows the whole. -/
  whole : TokenTable

/-- Adds what one production tells of the phrase that it begins with. -/
def addLead (g : Grammar) (starters : TokenTable) (lead : Lead) (production : Production) : Lead :=
  match production.body with
  | ⟨.phrase p, _, _⟩ :: [] => { lead with whole := lead.whole.union (.single g.setWidth p 1) }
  | ⟨.phrase p, _, _⟩ :: step :: _ =>
    { lead with next := lead.next.union (.single g.setWidth p (g.beginning starters step.symbol)) }
  | _ => lead

/-- What every phrase leads with. -/
def leads (g : Grammar) (starters : TokenTable) : List Lead :=
  g.productions.toList.map fun productions => productions.foldl (g.addLead starters) ⟨0, 0⟩

/-- What a phrase passes on if it may be followed by the given tokens. -/
def passOn (lead : Lead) (own : TokenSet) : TokenTable :=
  if own = 0 then 0 else lead.next.union (lead.whole.fill own)

/-- Spreads a set of followers for every phrase to the phrases that may begin where it begins. -/
def spreadRound (g : Grammar) (leads : List Lead) (table : TokenTable) : TokenTable :=
  leads.zipIdx.foldl (fun table (lead, p) =>
    table.union (passOn lead (table.row g.setWidth p))) table

/-- The phrases that may begin where a phrase begins, each with the tokens that may follow it. The
token number `g.tokens`, which no text holds, stands for whatever may follow the phrase itself. -/
def spreadFrom (g : Grammar) (leads : List Lead) (p : Nat) : TokenTable :=
  settle (g.spreadRound leads) (g.productions.size + 1) (.single g.setWidth p (.single g.tokens))

/-- For each phrase, the followers of the phrases that may begin where it begins. -/
def spread (g : Grammar) (starters : TokenTable) : Array (List TokenSet) :=
  let leads := g.leads starters
  (g.phrases.map fun p => g.rows (g.spreadFrom leads p)).toArray

end Grammar

end DefTally
