import Mathlib.Data.List.Induction
import Mathlib.Algebra.Group.Nat.Defs
import RobotDialog.Server.Sizes

/-!
# The canned replies

`test_response` of `utils.c`: one of six functions is called, each with a table of ten texts and a
static counter of its own.

* `testStringIt`, ...      the tables;
* `testResponse`           the function, with the six counters as its state;
* `counter_after`          a counter is the number of calls for its table, as a 32-bit number;
* `goodCall_iff_lt`        a call finds its text as long as the counter is not negative;
* `canned_replies_iff`     the runs without an access out of range.
-/

namespace Server
open CString Wire

/-- the bytes of a literal -/
def utf8 (s : String) : Bytes := s.toUTF8.data.toList

/-! ## the tables -/

/-- `test_string` of `test_response_it` -/
def testStringIt : List Bytes :=
  [utf8 "Sento qualcosa di strano, non sento piu' il mio corpo.",
    utf8 "Vuoi salire a vedere la mia collezione di farfalle?",
    utf8 "La mia personalità è modulare: oggi sono simpatico, domani potrei essere un tostapane.",
    utf8 "La vita e' come una scatola di cioccolatini, fa cagare.",
    utf8 "Ave maria, piena di grazia, il Signore e' con te!",
    utf8 "Vai a zappare.",
    utf8 "Vuoi mettermi la spina? Scegli tu dove.",
    utf8 "Sono così avanzato che riesco persino a fingere di trovare divertenti le vostre battute.",
    utf8 "Guarda a destra.... SUCA!",
    utf8 "Forza Napoli sempre, quattro scudetti!"]

/-- `test_string` of `test_response_en` -/
def testStringEn : List Bytes :=
  [utf8 "I feel something strange, I can't feel my body anymore.",
    utf8 "Want to come up and see my butterfly collection?",
    utf8 "My personality is modular: today I'm nice, tomorrow I might be a toaster.",
    utf8 "Life is like a box of chocolates, it sucks.",
    utf8 "Our Father, who art in heaven, hallowed be thy name!",
    utf8 "Go pound sand.",
    utf8 "Want to plug me in? You choose where.",
    utf8 "I'm so advanced I can even pretend to find your jokes funny.",
    utf8 "Look to your right. GOTCHA!",
    utf8 "Go Lakers forever, champions again!"]

/-- `test_string` of `test_response_es` -/
def testStringEs : List Bytes :=
  [utf8 "Siento algo extraño, ya no siento mi cuerpo.",
    utf8 "¿Quieres subir a ver mi colección de mariposas?",
    utf8 "Mi personalidad es modular: hoy soy simpático, mañana podría ser una tostadora.",
    utf8 "La vida es como una caja de bombones, apesta.",
    utf8 "Dios te salve María, llena eres de gracia, el Señor es contigo!",
    utf8 "Vete a freír espárragos.",
    utf8 "¿Quieres enchufarme? Tú eliges dónde.",
    utf8 "Soy tan avanzado que incluso puedo fingir que vuestros chistes son divertidos.",
    utf8 "Mira a la derecha. ¡TE PILLÉ!",
    utf8 "¡Hala Madrid siempre, campeones eternos!"]

/-- `test_string` of `test_response_fr` -/
def testStringFr : List Bytes :=
  [utf8 "Je sens quelque chose d'étrange, je ne sens plus mon corps.",
    utf8 "Tu veux monter voir ma collection de papillons?",
    utf8 "Ma personnalité est modulaire: aujourd'hui je suis sympa, demain je pourrais être un grille-pain.",
    utf8 "La vie c'est comme une boîte de chocolats, c'est nul.",
    utf8 "Je vous salue Marie, pleine de grâce, le Seigneur est avec vous!",
    utf8 "Va te faire voir.",
    utf8 "Tu veux me brancher? Tu choisis où.",
    utf8 "Je suis si avancé que j'arrive même à faire semblant de trouver vos blagues amusantes.",
    utf8 "Regarde à droite. PIÉGÉ!",
    utf8 "Allez l'OM toujours, champions à vie!"]

/-- `test_string` of `test_response_de` -/
def testStringDe : List Bytes :=
  [utf8 "Ich fühle etwas Seltsames, ich spüre meinen Körper nicht mehr.",
    utf8 "Willst du hochkommen und meine Schmetterlingssammlung sehen?",
    utf8 "Meine Persönlichkeit ist modular: heute bin ich nett, morgen könnte ich ein Toaster sein.",
    utf8 "Das Leben ist wie eine Schachtel Pralinen, es ist scheiße.",
    utf8 "Gegrüßet seist du, Maria, voll der Gnade, der Herr ist mit dir!",
    utf8 "Geh Kartoffeln schälen.",
    utf8 "Willst du mich einstecken? Du suchst dir aus, wo.",
    utf8 "Ich bin so fortgeschritten, dass ich sogar so tun kann, als würde ich eure Witze lustig finden.",
    utf8 "Schau nach rechts. REINGELEGT!",
    utf8 "Bayern München für immer, deutsche Meister!"]

/-- `test_string` of `test_response_pt` -/
def testStringPt : List Bytes :=
  [utf8 "Sinto algo estranho, não sinto mais o meu corpo.",
    utf8 "Quer subir para ver a minha coleção de borboletas?",
    utf8 "A minha personalidade é modular: hoje sou simpático, amanhã posso ser uma torradeira.",
    utf8 "A vida é como uma caixa de chocolates, é uma merda.",
    utf8 "Ave Maria, cheia de graça, o Senhor é convosco!",
    utf8 "Vai plantar batatas.",
    utf8 "Quer me ligar à corrente? Escolhe onde.",
    utf8 "Sou tão avançado que consigo até fingir que acho as vossas piadas engraçadas.",
    utf8 "Olha para a direita. APANHASTE!",
    utf8 "Força Benfica sempre, campeões eternos!"]

/-- the functions behind `test_response` -/
inductive Canned where
  | it | en | es | fr | de | pt
  deriving DecidableEq, Repr

def testString : Canned → List Bytes
  | .it => testStringIt
  | .en => testStringEn
  | .es => testStringEs
  | .fr => testStringFr
  | .de => testStringDe
  | .pt => testStringPt

/-! ## the functions -/

/-- the counters `i`, one in each function -/
abbrev Counters := Canned → Int32

/-- `array[i]`; `none` is an access out of range -/
def element (array : List Bytes) (i : Int32) : Option Bytes :=
  if 0 ≤ i.toInt then array[i.toInt.toNat]? else none

/-- `return (test_string[i++ % 10])` -/
def cannedReply (f : Canned) (table : List Bytes) (counters : Counters) :
    Option Bytes × Counters :=
  (element table (counters f % 10), Function.update counters f (counters f + 1))

def testResponseIt : Counters → Option Bytes × Counters := cannedReply .it testStringIt
def testResponseEn : Counters → Option Bytes × Counters := cannedReply .en testStringEn
def testResponseEs : Counters → Option Bytes × Counters := cannedReply .es testStringEs
def testResponseFr : Counters → Option Bytes × Counters := cannedReply .fr testStringFr
def testResponseDe : Counters → Option Bytes × Counters := cannedReply .de testStringDe
def testResponsePt : Counters → Option Bytes × Counters := cannedReply .pt testStringPt

/-- `tolower` in the C locale -/
def tolower (c : UInt8) : UInt8 := if 65 ≤ c ∧ c ≤ 90 then c + 32 else c

def toLowercase (str : Bytes) : Bytes := str.map tolower

def testResponse (language : Bytes) (counters : Counters) : Option Bytes × Counters :=
  let langCopy := toLowercase (cstr language)
  if langCopy = ascii "english" then testResponseEn counters
  else if langCopy = ascii "spanish" then testResponseEs counters
  else if langCopy = ascii "french" then testResponseFr counters
  else if langCopy = ascii "german" then testResponseDe counters
  else if langCopy = ascii "portougese" then testResponsePt counters
  else testResponseIt counters

/-- the counters at the start of the program -/
def countersStart : Counters := fun _ => 0

/-- the counters after calls with these languages -/
def countersAfter (languages : List Bytes) : Counters :=
  languages.foldl (fun counters language => (testResponse language counters).2) countersStart

/-! ## which function is called -/

/-- the function that a language selects -/
def cannedFor (language : Bytes) : Canned :=
  if toLowercase (cstr language) = ascii "english" then .en
  else if toLowercase (cstr language) = ascii "spanish" then .es
  else if toLowercase (cstr language) = ascii "french" then .fr
  else if toLowercase (cstr language) = ascii "german" then .de
  else if toLowercase (cstr language) = ascii "portougese" then .pt
  else .it

theorem testResponse_eq (language : Bytes) (counters : Counters) :
    testResponse language counters =
      cannedReply (cannedFor language) (testString (cannedFor language)) counters := by
  unfold testResponse cannedFor
  by_cases hen : toLowercase (cstr language) = ascii "english"
  · simp only [if_pos hen]
    rfl
  by_cases hes : toLowercase (cstr language) = ascii "spanish"
  · simp only [if_neg hen, if_pos hes]
    rfl
  by_cases hfr : toLowercase (cstr language) = ascii "french"
  · simp only [if_neg hen, if_neg hes, if_pos hfr]
    rfl
  by_cases hde : toLowercase (cstr language) = ascii "german"
  · simp only [if_neg hen, if_neg hes, if_neg hfr, if_pos hde]
    rfl
  by_cases hpt : toLowercase (cstr language) = ascii "portougese"
  · simp only [if_neg hen, if_neg hes, if_neg hfr, if_neg hde, if_pos hpt]
    rfl
  · simp only [if_neg hen, if_neg hes, if_neg hfr, if_neg hde, if_neg hpt]
    rfl

/-- how many of the calls go to the function `f` -/
def callsFor (f : Canned) (languages : List Bytes) : Nat :=
  languages.countP (cannedFor · = f)

theorem callsFor_concat (f : Canned) (languages : List Bytes) (language : Bytes) :
    callsFor f (languages ++ [language]) =
      callsFor f languages + if cannedFor language = f then 1 else 0 := by
  unfold callsFor
  rw [List.countP_append, List.countP_singleton]
  simp

/-- **A counter is the number of calls**, as a 32-bit number. -/
theorem counter_after (languages : List Bytes) (f : Canned) :
    countersAfter languages f = Int32.ofNat (callsFor f languages) := by
  induction languages using List.reverseRecOn with
  | nil => rfl
  | append_singleton languages language ih =>
    have hlast : countersAfter (languages ++ [language]) =
        (testResponse language (countersAfter languages)).2 := by
      unfold countersAfter
      rw [List.foldl_append]
      rfl
    rw [hlast, testResponse_eq, callsFor_concat]
    show Function.update _ (cannedFor language) _ f = _
    by_cases hf : cannedFor language = f
    · subst hf
      rw [Function.update_self, ih, if_pos rfl, Int32.ofNat_add]
      rfl
    · rw [Function.update_of_ne (Ne.symm hf), ih, if_neg hf, Nat.add_zero]

/-! ## the text of a call -/

/-- the call with `language` behind the calls with `before` has its index in range, and as the
`n`-th call for its table it gets the text number `(n - 1) % 10` -/
def GoodCall (before : List Bytes) (language : Bytes) : Prop :=
  (0 ≤ (countersAfter before (cannedFor language) % 10).toInt ∧
    (countersAfter before (cannedFor language) % 10).toInt ≤ 9) ∧
  (testResponse language (countersAfter before)).1 =
    (testString (cannedFor language))[callsFor (cannedFor language) before % 10]?

theorem index_of_lt {n : Nat} (h : n < 2 ^ 31) :
    (Int32.ofNat n % 10).toInt = ((n % 10 : Nat) : Int) := by
  rw [Int32.toInt_mod, Int32.toInt_ofNat_of_lt h]
  show Int.tmod (n : Int) 10 = _
  rw [Int.tmod_eq_emod_of_nonneg (Int.natCast_nonneg n)]
  omega

theorem goodCall_of_lt {before : List Bytes} {language : Bytes}
    (h : callsFor (cannedFor language) before < 2 ^ 31) : GoodCall before language := by
  have hindex : (countersAfter before (cannedFor language) % 10).toInt =
      ((callsFor (cannedFor language) before % 10 : Nat) : Int) := by
    rw [counter_after]
    exact index_of_lt h
  refine ⟨by omega, ?_⟩
  rw [testResponse_eq]
  show element _ (countersAfter before (cannedFor language) % 10) = _
  unfold element
  rw [hindex, if_pos (Int.natCast_nonneg _), Int.toNat_natCast]

/-- The call at which the counter wraps. -/
theorem not_goodCall_wrapped {before : List Bytes} {language : Bytes}
    (h : callsFor (cannedFor language) before = 2 ^ 31) : ¬ GoodCall before language := by
  rintro ⟨⟨hlow, -⟩, -⟩
  have hindex : (Int32.ofNat (2 ^ 31) % 10).toInt = -8 := by decide
  rw [counter_after, h, hindex] at hlow
  exact absurd hlow (by decide)

theorem call_reached {f : Canned} {languages : List Bytes} {n : Nat}
    (h : n < callsFor f languages) :
    ∃ before language, before ++ [language] <+: languages ∧ cannedFor language = f ∧
      callsFor f before = n := by
  induction languages using List.reverseRecOn with
  | nil => exact absurd h (Nat.not_lt_zero n)
  | append_singleton languages last ih =>
    by_cases hn : n < callsFor f languages
    · obtain ⟨before, language, hpre, hf, hcalls⟩ := ih hn
      exact ⟨before, language, hpre.trans (List.prefix_append _ _), hf, hcalls⟩
    · rw [callsFor_concat] at h
      by_cases hf : cannedFor last = f
      · rw [if_pos hf] at h
        exact ⟨languages, last, List.prefix_rfl, hf, by omega⟩
      · rw [if_neg hf] at h
        omega

theorem callsFor_of_prefix {f : Canned} {before languages : List Bytes} {language : Bytes}
    (h : before ++ [language] <+: languages) (hf : cannedFor language = f) :
    callsFor f before < callsFor f languages := by
  have hmono : callsFor f (before ++ [language]) ≤ callsFor f languages :=
    h.sublist.countP_le
  rw [callsFor_concat, if_pos hf] at hmono
  omega

/-- **The runs whose replies are all in range.** For every sequence of calls, each of them gets its
text in turn if and only if no table is asked more than `2 ^ 31` times. -/
theorem canned_replies_iff (languages : List Bytes) :
    (∀ before language, before ++ [language] <+: languages → GoodCall before language) ↔
      ∀ f, callsFor f languages ≤ 2 ^ 31 := by
  constructor
  · intro h f
    by_contra hmany
    obtain ⟨before, language, hpre, rfl, hcalls⟩ := call_reached (Nat.not_le.mp hmany)
    exact not_goodCall_wrapped hcalls (h before language hpre)
  · intro h before language hpre
    have hlt := callsFor_of_prefix hpre rfl
    exact goodCall_of_lt (lt_of_lt_of_le hlt (h (cannedFor language)))

theorem canned_replies_wrap :
    ¬ ∀ before language,
      before ++ [language] <+: List.replicate (2 ^ 31 + 1) (ascii "english") →
        GoodCall before language := by
  obtain ⟨n, hn⟩ : ∃ n, n = 2 ^ 31 := ⟨_, rfl⟩
  rw [← hn]
  intro h
  have hlast : List.replicate n (ascii "english") ++ [ascii "english"] <+:
      List.replicate (n + 1) (ascii "english") :=
    ⟨[], by rw [List.append_nil, List.replicate_succ']⟩
  refine not_goodCall_wrapped ?_ (h _ _ hlast)
  unfold callsFor
  rw [List.countP_replicate, if_pos (decide_eq_true rfl), hn]

/-! ## the tables as replies -/

/-- Each table has ten texts, and they get to the client whole: they fit their buffer and are UTF-8
without NUL, line terminator and '|' -/
theorem testString_whole (f : Canned) :
    (testString f).length = 10 ∧ ∀ text ∈ testString f,
      (0 ∉ text ∧ text.length ≤ maxAiResponseSize - 1) ∧
        lf ∉ text ∧ cr ∉ text ∧ bar ∉ text ∧ Utf8.Valid text := by
  cases f <;> decide +kernel

end Server
