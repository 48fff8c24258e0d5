/-!
# The collation alphabet

Characters in the order in which dictionaries list them: blanks and
punctuation, signs, currencies, digits, then the letters of the Latin, Greek
and Cyrillic scripts, each once and small.  Letters with accents are listed as
a letter and an accent; joined letters as the letters that they join.
-/

namespace FlatSchema.Alphabet

def marks : String :=
  "\t\n\x0b\x0c\r\u2028\u2029 ‾_‗-‐‒–—―⁓,;⁏:!¡?¿‽.·⁕⁖⁘⁙⁚⁛⁜⁝⁞'‘’‚‛‹›\"“”„‟«»()[]\x7b\x7d⁅⁆‖§" ++
    "¶⁋@*⁎⁑/\\&⁊#%‰‱†‡•‣‧⁃⁌⁍′‵‸※‿⁔⁀⁐⁁⁂`´˜^¯˘˙¨˚˝¸˛ʹ͵ˆˇ°҂©®←→↑↓↔↕∀∂∃∅∆∇∈϶∏∑+±÷×<=>¬|¦~−⁒⁄√∞∧∨∩" ++
    "∪∫≈≡≤≥⊂⊃⊕⊗⌘■□▲▼◆○●★☆☎♠♣♥♦♪✓✔✗"

def figures : String :=
  "¤¢$£¥₠₡₢₣₤₥₦₧₩₪₫€₭₮₯₰₱₲₳₴₵₶₷₸₹₺₻₼₽₾₿0123456789"

def letters : String :=
  "aⱥɐɑɒbʙƀɓƃcȼƈɕdɖɗƌȡẟeɇǝəɛɘɚɜɝɞʚɤfƒgɡɢǥɠʛɣƣhʜƕɦɧʻʽiıɪɨɩjȷɉʝɟʄkƙʞlʟƚɫɬɭȴɮƛʎmɱnɴɲƞɳȵŋoɶɔɵɷȣ" ++
    "pƥɸqʠɋĸrʀɍɹɺɻɼɽɾɿʁsʂȿẜẝʃƪʅʆtŧⱦƫƭʈȶʇuʉɥʮʯɯɰʊvʋỽʌwʍxyʏɏƴỿȝzƶȥʐʑɀʒƹƺʓþƿƻƨƽƅʔɂʼʾʕʿʡʢʖǀǁǂǃʗʘʬ" ++
    "ʭαβγδεϝͷϛζͱηθιϳκλμνξοπϻϟϙρϼσͼͻͽτυφχψωϡͳϸϣϥϧϩϫϭϯаәӕбвгғӻҕӷдԁђԃҙеєжԫҗзԅԑѕӡԇиҋійјкқӄҡҟҝԟԛлӆ" ++
    "ԯԓԡљԉԕмӎнԩӊңӈԣҥњԋоөпԥҧҁрҏԗсԍҫтԏҭћуүұѹфхӽӿҳһԧѡѿѽѻцҵчԭҷӌҹҽҿџшщъыьҍѣэюяԙѥѧѫѩѭѯѱѳѵҩԝӏ"

def characters : List Char :=
  (marks ++ figures ++ letters).toList

/-- Accents in order, as the characters that put them on the letter before. -/
def accents : List Char :=
  ("\u0332\u0313\u0314\u0301\u0300\u0306\u0302\u030c\u030a\u0342\u0308\u030b\u0303\u0307" ++
    "\u0338\u0327\u0328\u0304\u030d\u0316\u0336\u0335\u0305\u0309\u030f\u0310\u0311\u031b" ++
    "\u0321\u0322\u0323\u0324\u0325\u0326\u032d\u032e\u0330\u0331\u0334\u0339\u0345\u0358" ++
    "\u0360\u0361\u0483").toList

/-- The letters that have an accent of their own: for each accent, a letter without and the same
letter with it, and so on. -/
def accented : List (Char × String) :=
  [('\u0301', "aáeéiíoóuúyýcćlĺnńrŕsśzźüǘgǵåǻæǽøǿϊΐαάεέηήιίϋΰοόυύωώϒϓгѓкќçḉēḗïḯkḱmḿõṍōṓpṕũṹ" ++
      "wẃâấăắêếôốơớưứ"),
    ('\u0300', "aàeèiìoòuùüǜnǹеѐиѝēḕōṑwẁâầăằêềôồơờưừyỳ"),
    ('\u0306', "aăeĕgğiĭoŏuŭуўжӂаӑеӗȩḝạặ"),
    ('\u0302', "aâeêiîoôuûcĉgĝhĥjĵsŝwŵyŷzẑạậẹệọộ"),
    ('\u030c', "cčdďeělľnňrřsštťzžaǎiǐoǒuǔüǚgǧkǩʒǯjǰhȟ"),
    ('\u030a', "aåuůwẘyẙ"),
    ('\u0308', "aäeëiïoöuüyÿιϊυϋϒϔеёіїаӓәӛжӝзӟиӥоӧөӫэӭуӱчӵыӹhḧõṏūṻwẅxẍtẗ"),
    ('\u030b', "oőuűуӳ"),
    ('\u0303', "aãnñoõiĩuũvṽâẫăẵeẽêễôỗơỡưữyỹ"),
    ('\u0307', "cċeėgġIİzżaȧoȯbḃdḋfḟhḣmṁnṅpṗrṙsṡśṥšṧṣṩtṫwẇxẋyẏſẛ"),
    ('\u0338', "oø"),
    ('\u0327', "cçgģkķlļnņrŗsştţeȩdḑhḩ"),
    ('\u0328', "aąeęiįuųoǫ"),
    ('\u0304', "aāeēiīoōuūüǖäǟȧǡæǣǫǭöȫõȭȯȱyȳиӣуӯgḡḷḹṛṝ"),
    ('\u0335', "dđhħlł"),
    ('\u0309', "aảâẩăẳeẻêểiỉoỏôổơởuủưửyỷ"),
    ('\u030f', "aȁeȅiȉoȍrȑuȕѵѷ"),
    ('\u0311', "aȃeȇiȋoȏrȓuȗ"),
    ('\u031b', "oơuư"),
    ('\u0323', "bḅdḍhḥkḳlḷmṃnṇrṛsṣtṭvṿwẉzẓaạeẹiịoọơợuụưựyỵ"),
    ('\u0324', "uṳ"),
    ('\u0325', "aḁ"),
    ('\u0326', "sștț"),
    ('\u032d', "dḓeḙlḽnṋtṱuṷ"),
    ('\u032e', "hḫ"),
    ('\u0330', "eḛiḭuṵ"),
    ('\u0331', "bḇdḏkḵlḻnṉrṟtṯzẕhẖ")]

/-- Joined letters that count as the letters they join with a sign between them. -/
def joined : List (Char × String) :=
  [('æ', "ae"), ('œ', "oe"), ('ß', "ss"), ('ð', "d"), ('ſ', "s"), ('ŀ', "l"), ('ґ', "г")]

/-- Joined letters that count as the letters they join. -/
def ligatures : List (Char × String) :=
  [('…', "..."), ('‥', ".."), ('½', "1⁄2"), ('¼', "1⁄4"), ('¾', "3⁄4"), ('µ', "μ"),
    ('ĳ', "ij"), ('ŉ', "ʼn"), ('ǆ', "dz"), ('ǉ', "lj"), ('ǌ', "nj"), ('ǳ', "dz")]

/-- Characters that are variants of others and follow their capitals. -/
def variants : List (Char × Char) :=
  [('\u00a0', ' '), ('ª', 'a'), ('²', '2'), ('³', '3'), ('¹', '1'), ('º', 'o'), ('ς', 'σ')]

def twins : List (Char × Char) :=
  [('\u0374', 'ʹ'), ('\u037e', ';'), ('\u0387', '·')]

/-- Characters that count for nothing: controls that are no blanks, and marks that only say how
their neighbours join. -/
def isIgnored (char : Char) : Bool :=
  let code := char.toNat
  code ≤ 0x08 || 0x0e ≤ code && code ≤ 0x1f || 0x7f ≤ code && code ≤ 0x9f && code ≠ 0x85 ||
    code = 0xad || code = 0x034f || 0x200b ≤ code && code ≤ 0x200f ||
    0x202a ≤ code && code ≤ 0x202e || 0x2060 ≤ code && code ≤ 0x206f ||
    0xfe00 ≤ code && code ≤ 0xfe0f || code = 0xfeff

def isSign (char : Char) : Bool :=
  let code := char.toNat
  0x2100 ≤ code && code ≤ 0x2bff || 0x1f000 ≤ code && code ≤ 0x1faff

def isIdeograph (char : Char) : Bool :=
  let code := char.toNat
  0x3400 ≤ code && code ≤ 0x9fff || 0x20000 ≤ code && code ≤ 0x3ffff

end FlatSchema.Alphabet
