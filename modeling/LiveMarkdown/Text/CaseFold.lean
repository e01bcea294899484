/-!
# Case folding

Labels are compared without regard to case: a character is taken to its lower case and from there to
its upper case, so that all forms of a letter meet. A few characters become more than one.

## Main definitions

* `foldCase`: a text without distinction of case.
-/

namespace LiveMarkdown

/-- The characters beyond ASCII that folding changes, each followed by what it becomes. -/
def caseFoldLines : List String :=
  [
    "µ Μ ß SS à À á Á â Â ã Ã ä Ä å Å æ Æ ç Ç è È é É ê Ê ë Ë ì Ì í Í î Î ï Ï ð Ð ñ Ñ ò Ò ó Ó",
    "ô Ô õ Õ ö Ö ø Ø ù Ù ú Ú û Û ü Ü ý Ý þ Þ ÿ Ÿ ā Ā ă Ă ą Ą ć Ć ĉ Ĉ ċ Ċ č Č ď Ď đ Đ ē Ē ĕ Ĕ",
    "ė Ė ę Ę ě Ě ĝ Ĝ ğ Ğ ġ Ġ ģ Ģ ĥ Ĥ ħ Ħ ĩ Ĩ ī Ī ĭ Ĭ į Į İ I\u0307 ı I ĳ Ĳ ĵ Ĵ ķ Ķ ĺ Ĺ ļ Ļ ľ Ľ",
    "ŀ Ŀ ł Ł ń Ń ņ Ņ ň Ň ŉ ʼN ŋ Ŋ ō Ō ŏ Ŏ ő Ő œ Œ ŕ Ŕ ŗ Ŗ ř Ř ś Ś ŝ Ŝ ş Ş š Š ţ Ţ ť Ť ŧ Ŧ ũ Ũ",
    "ū Ū ŭ Ŭ ů Ů ű Ű ų Ų ŵ Ŵ ŷ Ŷ ź Ź ż Ż ž Ž ſ S ƀ Ƀ ƃ Ƃ ƅ Ƅ ƈ Ƈ ƌ Ƌ ƒ Ƒ ƕ Ƕ ƙ Ƙ ƚ Ƚ ƞ Ƞ ơ Ơ",
    "ƣ Ƣ ƥ Ƥ ƨ Ƨ ƭ Ƭ ư Ư ƴ Ƴ ƶ Ƶ ƹ Ƹ ƽ Ƽ ƿ Ƿ ǅ Ǆ ǆ Ǆ ǈ Ǉ ǉ Ǉ ǋ Ǌ ǌ Ǌ ǎ Ǎ ǐ Ǐ ǒ Ǒ ǔ Ǔ ǖ Ǖ ǘ Ǘ",
    "ǚ Ǚ ǜ Ǜ ǝ Ǝ ǟ Ǟ ǡ Ǡ ǣ Ǣ ǥ Ǥ ǧ Ǧ ǩ Ǩ ǫ Ǫ ǭ Ǭ ǯ Ǯ ǰ J\u030c ǲ Ǳ ǳ Ǳ ǵ Ǵ ǹ Ǹ ǻ Ǻ ǽ Ǽ ǿ Ǿ ȁ Ȁ",
    "ȃ Ȃ ȅ Ȅ ȇ Ȇ ȉ Ȉ ȋ Ȋ ȍ Ȍ ȏ Ȏ ȑ Ȑ ȓ Ȓ ȕ Ȕ ȗ Ȗ ș Ș ț Ț ȝ Ȝ ȟ Ȟ ȣ Ȣ ȥ Ȥ ȧ Ȧ ȩ Ȩ ȫ Ȫ ȭ Ȭ ȯ Ȯ",
    "ȱ Ȱ ȳ Ȳ ȼ Ȼ ȿ Ȿ ɀ Ɀ ɂ Ɂ ɇ Ɇ ɉ Ɉ ɋ Ɋ ɍ Ɍ ɏ Ɏ ɐ Ɐ ɑ Ɑ ɒ Ɒ ɓ Ɓ ɔ Ɔ ɖ Ɖ ɗ Ɗ ə Ə ɛ Ɛ ɜ Ɜ ɠ Ɠ",
    "ɡ Ɡ ɣ Ɣ ɥ Ɥ ɦ Ɦ ɨ Ɨ ɩ Ɩ ɪ Ɪ ɫ Ɫ ɬ Ɬ ɯ Ɯ ɱ Ɱ ɲ Ɲ ɵ Ɵ ɽ Ɽ ʀ Ʀ ʂ Ʂ ʃ Ʃ ʇ Ʇ ʈ Ʈ ʉ Ʉ ʊ Ʊ ʋ Ʋ",
    "ʌ Ʌ ʒ Ʒ ʝ Ʝ ʞ Ʞ ͅ Ι ͱ Ͱ ͳ Ͳ ͷ Ͷ ͻ Ͻ ͼ Ͼ ͽ Ͽ ΐ Ι\u0308\u0301 ά Ά έ Έ ή Ή ί Ί",
    "ΰ Υ\u0308\u0301 α Α β Β γ Γ δ Δ ε Ε ζ Ζ η Η θ Θ ι Ι κ Κ λ Λ μ Μ ν Ν ξ Ξ ο Ο π Π ρ Ρ ς Σ",
    "σ Σ τ Τ υ Υ φ Φ χ Χ ψ Ψ ω Ω ϊ Ϊ ϋ Ϋ ό Ό ύ Ύ ώ Ώ ϐ Β ϑ Θ ϕ Φ ϖ Π ϗ Ϗ ϙ Ϙ ϛ Ϛ ϝ Ϝ ϟ Ϟ ϡ Ϡ",
    "ϣ Ϣ ϥ Ϥ ϧ Ϧ ϩ Ϩ ϫ Ϫ ϭ Ϭ ϯ Ϯ ϰ Κ ϱ Ρ ϲ Ϲ ϳ Ϳ ϴ Θ ϵ Ε ϸ Ϸ ϻ Ϻ а А б Б в В г Г д Д е Е ж Ж",
    "з З и И й Й к К л Л м М н Н о О п П р Р с С т Т у У ф Ф х Х ц Ц ч Ч ш Ш щ Щ ъ Ъ ы Ы ь Ь",
    "э Э ю Ю я Я ѐ Ѐ ё Ё ђ Ђ ѓ Ѓ є Є ѕ Ѕ і І ї Ї ј Ј љ Љ њ Њ ћ Ћ ќ Ќ ѝ Ѝ ў Ў џ Џ ѡ Ѡ ѣ Ѣ ѥ Ѥ",
    "ѧ Ѧ ѩ Ѩ ѫ Ѫ ѭ Ѭ ѯ Ѯ ѱ Ѱ ѳ Ѳ ѵ Ѵ ѷ Ѷ ѹ Ѹ ѻ Ѻ ѽ Ѽ ѿ Ѿ ҁ Ҁ ҋ Ҋ ҍ Ҍ ҏ Ҏ ґ Ґ ғ Ғ ҕ Ҕ җ Җ ҙ Ҙ",
    "қ Қ ҝ Ҝ ҟ Ҟ ҡ Ҡ ң Ң ҥ Ҥ ҧ Ҧ ҩ Ҩ ҫ Ҫ ҭ Ҭ ү Ү ұ Ұ ҳ Ҳ ҵ Ҵ ҷ Ҷ ҹ Ҹ һ Һ ҽ Ҽ ҿ Ҿ ӂ Ӂ ӄ Ӄ ӆ Ӆ",
    "ӈ Ӈ ӊ Ӊ ӌ Ӌ ӎ Ӎ ӏ Ӏ ӑ Ӑ ӓ Ӓ ӕ Ӕ ӗ Ӗ ә Ә ӛ Ӛ ӝ Ӝ ӟ Ӟ ӡ Ӡ ӣ Ӣ ӥ Ӥ ӧ Ӧ ө Ө ӫ Ӫ ӭ Ӭ ӯ Ӯ ӱ Ӱ",
    "ӳ Ӳ ӵ Ӵ ӷ Ӷ ӹ Ӹ ӻ Ӻ ӽ Ӽ ӿ Ӿ ԁ Ԁ ԃ Ԃ ԅ Ԅ ԇ Ԇ ԉ Ԉ ԋ Ԋ ԍ Ԍ ԏ Ԏ ԑ Ԑ ԓ Ԓ ԕ Ԕ ԗ Ԗ ԙ Ԙ ԛ Ԛ ԝ Ԝ",
    "ԟ Ԟ ԡ Ԡ ԣ Ԣ ԥ Ԥ ԧ Ԧ ԩ Ԩ ԫ Ԫ ԭ Ԭ ԯ Ԯ ա Ա բ Բ գ Գ դ Դ ե Ե զ Զ է Է ը Ը թ Թ ժ Ժ ի Ի լ Լ խ Խ",
    "ծ Ծ կ Կ հ Հ ձ Ձ ղ Ղ ճ Ճ մ Մ յ Յ ն Ն շ Շ ո Ո չ Չ պ Պ ջ Ջ ռ Ռ ս Ս վ Վ տ Տ ր Ր ց Ց ւ Ւ փ Փ",
    "ք Ք օ Օ ֆ Ֆ և ԵՒ ა Ა ბ Ბ გ Გ დ Დ ე Ე ვ Ვ ზ Ზ თ Თ ი Ი კ Კ ლ Ლ მ Მ ნ Ნ ო Ო პ Პ ჟ Ჟ რ Რ ს Ს",
    "ტ Ტ უ Უ ფ Ფ ქ Ქ ღ Ღ ყ Ყ შ Შ ჩ Ჩ ც Ც ძ Ძ წ Წ ჭ Ჭ ხ Ხ ჯ Ჯ ჰ Ჰ ჱ Ჱ ჲ Ჲ ჳ Ჳ ჴ Ჴ ჵ Ჵ ჶ Ჶ ჷ Ჷ",
    "ჸ Ჸ ჹ Ჹ ჺ Ჺ ჽ Ჽ ჾ Ჾ ჿ Ჿ ᏸ Ᏸ ᏹ Ᏹ ᏺ Ᏺ ᏻ Ᏻ ᏼ Ᏼ ᏽ Ᏽ ᲀ В ᲁ Д ᲂ О ᲃ С ᲄ Т ᲅ Т ᲆ Ъ ᲇ Ѣ ᲈ Ꙋ ᵹ Ᵹ",
    "ᵽ Ᵽ ᶎ Ᶎ ḁ Ḁ ḃ Ḃ ḅ Ḅ ḇ Ḇ ḉ Ḉ ḋ Ḋ ḍ Ḍ ḏ Ḏ ḑ Ḑ ḓ Ḓ ḕ Ḕ ḗ Ḗ ḙ Ḙ ḛ Ḛ ḝ Ḝ ḟ Ḟ ḡ Ḡ ḣ Ḣ ḥ Ḥ ḧ Ḧ",
    "ḩ Ḩ ḫ Ḫ ḭ Ḭ ḯ Ḯ ḱ Ḱ ḳ Ḳ ḵ Ḵ ḷ Ḷ ḹ Ḹ ḻ Ḻ ḽ Ḽ ḿ Ḿ ṁ Ṁ ṃ Ṃ ṅ Ṅ ṇ Ṇ ṉ Ṉ ṋ Ṋ ṍ Ṍ ṏ Ṏ ṑ Ṑ ṓ Ṓ",
    "ṕ Ṕ ṗ Ṗ ṙ Ṙ ṛ Ṛ ṝ Ṝ ṟ Ṟ ṡ Ṡ ṣ Ṣ ṥ Ṥ ṧ Ṧ ṩ Ṩ ṫ Ṫ ṭ Ṭ ṯ Ṯ ṱ Ṱ ṳ Ṳ ṵ Ṵ ṷ Ṷ ṹ Ṹ ṻ Ṻ ṽ Ṽ ṿ Ṿ",
    "ẁ Ẁ ẃ Ẃ ẅ Ẅ ẇ Ẇ ẉ Ẉ ẋ Ẋ ẍ Ẍ ẏ Ẏ ẑ Ẑ ẓ Ẓ ẕ Ẕ ẖ H\u0331 ẗ T\u0308 ẘ W\u030a ẙ Y\u030a ẚ Aʾ",
    "ẛ Ṡ ẞ SS ạ Ạ ả Ả ấ Ấ ầ Ầ ẩ Ẩ ẫ Ẫ ậ Ậ ắ Ắ ằ Ằ ẳ Ẳ ẵ Ẵ ặ Ặ ẹ Ẹ ẻ Ẻ ẽ Ẽ ế Ế ề Ề ể Ể ễ Ễ ệ Ệ",
    "ỉ Ỉ ị Ị ọ Ọ ỏ Ỏ ố Ố ồ Ồ ổ Ổ ỗ Ỗ ộ Ộ ớ Ớ ờ Ờ ở Ở ỡ Ỡ ợ Ợ ụ Ụ ủ Ủ ứ Ứ ừ Ừ ử Ử ữ Ữ ự Ự ỳ Ỳ",
    "ỵ Ỵ ỷ Ỷ ỹ Ỹ ỻ Ỻ ỽ Ỽ ỿ Ỿ ἀ Ἀ ἁ Ἁ ἂ Ἂ ἃ Ἃ ἄ Ἄ ἅ Ἅ ἆ Ἆ ἇ Ἇ ἐ Ἐ ἑ Ἑ ἒ Ἒ ἓ Ἓ ἔ Ἔ ἕ Ἕ ἠ Ἠ ἡ Ἡ",
    "ἢ Ἢ ἣ Ἣ ἤ Ἤ ἥ Ἥ ἦ Ἦ ἧ Ἧ ἰ Ἰ ἱ Ἱ ἲ Ἲ ἳ Ἳ ἴ Ἴ ἵ Ἵ ἶ Ἶ ἷ Ἷ ὀ Ὀ ὁ Ὁ ὂ Ὂ ὃ Ὃ ὄ Ὄ ὅ Ὅ ὐ Υ\u0313",
    "ὑ Ὑ ὒ Υ\u0313\u0300 ὓ Ὓ ὔ Υ\u0313\u0301 ὕ Ὕ ὖ Υ\u0313\u0342 ὗ Ὗ ὠ Ὠ ὡ Ὡ ὢ Ὢ ὣ Ὣ ὤ Ὤ ὥ Ὥ",
    "ὦ Ὦ ὧ Ὧ ὰ Ὰ ά Ά ὲ Ὲ έ Έ ὴ Ὴ ή Ή ὶ Ὶ ί Ί ὸ Ὸ ό Ό ὺ Ὺ ύ Ύ ὼ Ὼ ώ Ώ ᾀ ἈΙ ᾁ ἉΙ ᾂ ἊΙ ᾃ ἋΙ ᾄ ἌΙ",
    "ᾅ ἍΙ ᾆ ἎΙ ᾇ ἏΙ ᾈ ἈΙ ᾉ ἉΙ ᾊ ἊΙ ᾋ ἋΙ ᾌ ἌΙ ᾍ ἍΙ ᾎ ἎΙ ᾏ ἏΙ ᾐ ἨΙ ᾑ ἩΙ ᾒ ἪΙ ᾓ ἫΙ ᾔ ἬΙ ᾕ ἭΙ ᾖ ἮΙ",
    "ᾗ ἯΙ ᾘ ἨΙ ᾙ ἩΙ ᾚ ἪΙ ᾛ ἫΙ ᾜ ἬΙ ᾝ ἭΙ ᾞ ἮΙ ᾟ ἯΙ ᾠ ὨΙ ᾡ ὩΙ ᾢ ὪΙ ᾣ ὫΙ ᾤ ὬΙ ᾥ ὭΙ ᾦ ὮΙ ᾧ ὯΙ ᾨ ὨΙ",
    "ᾩ ὩΙ ᾪ ὪΙ ᾫ ὫΙ ᾬ ὬΙ ᾭ ὭΙ ᾮ ὮΙ ᾯ ὯΙ ᾰ Ᾰ ᾱ Ᾱ ᾲ ᾺΙ ᾳ ΑΙ ᾴ ΆΙ ᾶ Α\u0342 ᾷ Α\u0342Ι ᾼ ΑΙ ι Ι",
    "ῂ ῊΙ ῃ ΗΙ ῄ ΉΙ ῆ Η\u0342 ῇ Η\u0342Ι ῌ ΗΙ ῐ Ῐ ῑ Ῑ ῒ Ι\u0308\u0300 ΐ Ι\u0308\u0301 ῖ Ι\u0342",
    "ῗ Ι\u0308\u0342 ῠ Ῠ ῡ Ῡ ῢ Υ\u0308\u0300 ΰ Υ\u0308\u0301 ῤ Ρ\u0313 ῥ Ῥ ῦ Υ\u0342",
    "ῧ Υ\u0308\u0342 ῲ ῺΙ ῳ ΩΙ ῴ ΏΙ ῶ Ω\u0342 ῷ Ω\u0342Ι ῼ ΩΙ Ω Ω K K Å Å ⅎ Ⅎ ⅰ Ⅰ ⅱ Ⅱ ⅲ Ⅲ ⅳ Ⅳ",
    "ⅴ Ⅴ ⅵ Ⅵ ⅶ Ⅶ ⅷ Ⅷ ⅸ Ⅸ ⅹ Ⅹ ⅺ Ⅺ ⅻ Ⅻ ⅼ Ⅼ ⅽ Ⅽ ⅾ Ⅾ ⅿ Ⅿ ↄ Ↄ ⓐ Ⓐ ⓑ Ⓑ ⓒ Ⓒ ⓓ Ⓓ ⓔ Ⓔ ⓕ Ⓕ ⓖ Ⓖ ⓗ Ⓗ ⓘ Ⓘ",
    "ⓙ Ⓙ ⓚ Ⓚ ⓛ Ⓛ ⓜ Ⓜ ⓝ Ⓝ ⓞ Ⓞ ⓟ Ⓟ ⓠ Ⓠ ⓡ Ⓡ ⓢ Ⓢ ⓣ Ⓣ ⓤ Ⓤ ⓥ Ⓥ ⓦ Ⓦ ⓧ Ⓧ ⓨ Ⓨ ⓩ Ⓩ ⰰ Ⰰ ⰱ Ⰱ ⰲ Ⰲ ⰳ Ⰳ ⰴ Ⰴ",
    "ⰵ Ⰵ ⰶ Ⰶ ⰷ Ⰷ ⰸ Ⰸ ⰹ Ⰹ ⰺ Ⰺ ⰻ Ⰻ ⰼ Ⰼ ⰽ Ⰽ ⰾ Ⰾ ⰿ Ⰿ ⱀ Ⱀ ⱁ Ⱁ ⱂ Ⱂ ⱃ Ⱃ ⱄ Ⱄ ⱅ Ⱅ ⱆ Ⱆ ⱇ Ⱇ ⱈ Ⱈ ⱉ Ⱉ ⱊ Ⱊ",
    "ⱋ Ⱋ ⱌ Ⱌ ⱍ Ⱍ ⱎ Ⱎ ⱏ Ⱏ ⱐ Ⱐ ⱑ Ⱑ ⱒ Ⱒ ⱓ Ⱓ ⱔ Ⱔ ⱕ Ⱕ ⱖ Ⱖ ⱗ Ⱗ ⱘ Ⱘ ⱙ Ⱙ ⱚ Ⱚ ⱛ Ⱛ ⱜ Ⱜ ⱝ Ⱝ ⱞ Ⱞ ⱟ Ⱟ ⱡ Ⱡ",
    "ⱥ Ⱥ ⱦ Ⱦ ⱨ Ⱨ ⱪ Ⱪ ⱬ Ⱬ ⱳ Ⱳ ⱶ Ⱶ ⲁ Ⲁ ⲃ Ⲃ ⲅ Ⲅ ⲇ Ⲇ ⲉ Ⲉ ⲋ Ⲋ ⲍ Ⲍ ⲏ Ⲏ ⲑ Ⲑ ⲓ Ⲓ ⲕ Ⲕ ⲗ Ⲗ ⲙ Ⲙ ⲛ Ⲛ ⲝ Ⲝ",
    "ⲟ Ⲟ ⲡ Ⲡ ⲣ Ⲣ ⲥ Ⲥ ⲧ Ⲧ ⲩ Ⲩ ⲫ Ⲫ ⲭ Ⲭ ⲯ Ⲯ ⲱ Ⲱ ⲳ Ⲳ ⲵ Ⲵ ⲷ Ⲷ ⲹ Ⲹ ⲻ Ⲻ ⲽ Ⲽ ⲿ Ⲿ ⳁ Ⳁ ⳃ Ⳃ ⳅ Ⳅ ⳇ Ⳇ ⳉ Ⳉ",
    "ⳋ Ⳋ ⳍ Ⳍ ⳏ Ⳏ ⳑ Ⳑ ⳓ Ⳓ ⳕ Ⳕ ⳗ Ⳗ ⳙ Ⳙ ⳛ Ⳛ ⳝ Ⳝ ⳟ Ⳟ ⳡ Ⳡ ⳣ Ⳣ ⳬ Ⳬ ⳮ Ⳮ ⳳ Ⳳ ⴀ Ⴀ ⴁ Ⴁ ⴂ Ⴂ ⴃ Ⴃ ⴄ Ⴄ ⴅ Ⴅ",
    "ⴆ Ⴆ ⴇ Ⴇ ⴈ Ⴈ ⴉ Ⴉ ⴊ Ⴊ ⴋ Ⴋ ⴌ Ⴌ ⴍ Ⴍ ⴎ Ⴎ ⴏ Ⴏ ⴐ Ⴐ ⴑ Ⴑ ⴒ Ⴒ ⴓ Ⴓ ⴔ Ⴔ ⴕ Ⴕ ⴖ Ⴖ ⴗ Ⴗ ⴘ Ⴘ ⴙ Ⴙ ⴚ Ⴚ ⴛ Ⴛ",
    "ⴜ Ⴜ ⴝ Ⴝ ⴞ Ⴞ ⴟ Ⴟ ⴠ Ⴠ ⴡ Ⴡ ⴢ Ⴢ ⴣ Ⴣ ⴤ Ⴤ ⴥ Ⴥ ⴧ Ⴧ ⴭ Ⴭ ꙁ Ꙁ ꙃ Ꙃ ꙅ Ꙅ ꙇ Ꙇ ꙉ Ꙉ ꙋ Ꙋ ꙍ Ꙍ ꙏ Ꙏ ꙑ Ꙑ ꙓ Ꙓ",
    "ꙕ Ꙕ ꙗ Ꙗ ꙙ Ꙙ ꙛ Ꙛ ꙝ Ꙝ ꙟ Ꙟ ꙡ Ꙡ ꙣ Ꙣ ꙥ Ꙥ ꙧ Ꙧ ꙩ Ꙩ ꙫ Ꙫ ꙭ Ꙭ ꚁ Ꚁ ꚃ Ꚃ ꚅ Ꚅ ꚇ Ꚇ ꚉ Ꚉ ꚋ Ꚋ ꚍ Ꚍ ꚏ Ꚏ ꚑ Ꚑ",
    "ꚓ Ꚓ ꚕ Ꚕ ꚗ Ꚗ ꚙ Ꚙ ꚛ Ꚛ ꜣ Ꜣ ꜥ Ꜥ ꜧ Ꜧ ꜩ Ꜩ ꜫ Ꜫ ꜭ Ꜭ ꜯ Ꜯ ꜳ Ꜳ ꜵ Ꜵ ꜷ Ꜷ ꜹ Ꜹ ꜻ Ꜻ ꜽ Ꜽ ꜿ Ꜿ ꝁ Ꝁ ꝃ Ꝃ ꝅ Ꝅ",
    "ꝇ Ꝇ ꝉ Ꝉ ꝋ Ꝋ ꝍ Ꝍ ꝏ Ꝏ ꝑ Ꝑ ꝓ Ꝓ ꝕ Ꝕ ꝗ Ꝗ ꝙ Ꝙ ꝛ Ꝛ ꝝ Ꝝ ꝟ Ꝟ ꝡ Ꝡ ꝣ Ꝣ ꝥ Ꝥ ꝧ Ꝧ ꝩ Ꝩ ꝫ Ꝫ ꝭ Ꝭ ꝯ Ꝯ ꝺ Ꝺ",
    "ꝼ Ꝼ ꝿ Ꝿ ꞁ Ꞁ ꞃ Ꞃ ꞅ Ꞅ ꞇ Ꞇ ꞌ Ꞌ ꞑ Ꞑ ꞓ Ꞓ ꞔ Ꞔ ꞗ Ꞗ ꞙ Ꞙ ꞛ Ꞛ ꞝ Ꞝ ꞟ Ꞟ ꞡ Ꞡ ꞣ Ꞣ ꞥ Ꞥ ꞧ Ꞧ ꞩ Ꞩ ꞵ Ꞵ ꞷ Ꞷ",
    "ꞹ Ꞹ ꞻ Ꞻ ꞽ Ꞽ ꞿ Ꞿ ꟁ Ꟁ ꟃ Ꟃ ꟈ Ꟈ ꟊ Ꟊ ꟑ Ꟑ ꟗ Ꟗ ꟙ Ꟙ ꟶ Ꟶ ꭓ Ꭓ ꭰ Ꭰ ꭱ Ꭱ ꭲ Ꭲ ꭳ Ꭳ ꭴ Ꭴ ꭵ Ꭵ ꭶ Ꭶ ꭷ Ꭷ ꭸ Ꭸ",
    "ꭹ Ꭹ ꭺ Ꭺ ꭻ Ꭻ ꭼ Ꭼ ꭽ Ꭽ ꭾ Ꭾ ꭿ Ꭿ ꮀ Ꮀ ꮁ Ꮁ ꮂ Ꮂ ꮃ Ꮃ ꮄ Ꮄ ꮅ Ꮅ ꮆ Ꮆ ꮇ Ꮇ ꮈ Ꮈ ꮉ Ꮉ ꮊ Ꮊ ꮋ Ꮋ ꮌ Ꮌ ꮍ Ꮍ ꮎ Ꮎ",
    "ꮏ Ꮏ ꮐ Ꮐ ꮑ Ꮑ ꮒ Ꮒ ꮓ Ꮓ ꮔ Ꮔ ꮕ Ꮕ ꮖ Ꮖ ꮗ Ꮗ ꮘ Ꮘ ꮙ Ꮙ ꮚ Ꮚ ꮛ Ꮛ ꮜ Ꮜ ꮝ Ꮝ ꮞ Ꮞ ꮟ Ꮟ ꮠ Ꮠ ꮡ Ꮡ ꮢ Ꮢ ꮣ Ꮣ ꮤ Ꮤ",
    "ꮥ Ꮥ ꮦ Ꮦ ꮧ Ꮧ ꮨ Ꮨ ꮩ Ꮩ ꮪ Ꮪ ꮫ Ꮫ ꮬ Ꮬ ꮭ Ꮭ ꮮ Ꮮ ꮯ Ꮯ ꮰ Ꮰ ꮱ Ꮱ ꮲ Ꮲ ꮳ Ꮳ ꮴ Ꮴ ꮵ Ꮵ ꮶ Ꮶ ꮷ Ꮷ ꮸ Ꮸ ꮹ Ꮹ ꮺ Ꮺ",
    "ꮻ Ꮻ ꮼ Ꮼ ꮽ Ꮽ ꮾ Ꮾ ꮿ Ꮿ ﬀ FF ﬁ FI ﬂ FL ﬃ FFI ﬄ FFL ﬅ ST ﬆ ST ﬓ ՄՆ ﬔ ՄԵ ﬕ ՄԻ ﬖ ՎՆ ﬗ ՄԽ ａ Ａ ｂ Ｂ",
    "ｃ Ｃ ｄ Ｄ ｅ Ｅ ｆ Ｆ ｇ Ｇ ｈ Ｈ ｉ Ｉ ｊ Ｊ ｋ Ｋ ｌ Ｌ ｍ Ｍ ｎ Ｎ ｏ Ｏ ｐ Ｐ ｑ Ｑ ｒ Ｒ ｓ Ｓ ｔ Ｔ ｕ Ｕ ｖ Ｖ ｗ Ｗ ｘ Ｘ",
    "ｙ Ｙ ｚ Ｚ 𐐨 𐐀 𐐩 𐐁 𐐪 𐐂 𐐫 𐐃 𐐬 𐐄 𐐭 𐐅 𐐮 𐐆 𐐯 𐐇 𐐰 𐐈 𐐱 𐐉 𐐲 𐐊 𐐳 𐐋 𐐴 𐐌 𐐵 𐐍 𐐶 𐐎 𐐷 𐐏 𐐸 𐐐 𐐹 𐐑 𐐺 𐐒 𐐻 𐐓",
    "𐐼 𐐔 𐐽 𐐕 𐐾 𐐖 𐐿 𐐗 𐑀 𐐘 𐑁 𐐙 𐑂 𐐚 𐑃 𐐛 𐑄 𐐜 𐑅 𐐝 𐑆 𐐞 𐑇 𐐟 𐑈 𐐠 𐑉 𐐡 𐑊 𐐢 𐑋 𐐣 𐑌 𐐤 𐑍 𐐥 𐑎 𐐦 𐑏 𐐧 𐓘 𐒰 𐓙 𐒱",
    "𐓚 𐒲 𐓛 𐒳 𐓜 𐒴 𐓝 𐒵 𐓞 𐒶 𐓟 𐒷 𐓠 𐒸 𐓡 𐒹 𐓢 𐒺 𐓣 𐒻 𐓤 𐒼 𐓥 𐒽 𐓦 𐒾 𐓧 𐒿 𐓨 𐓀 𐓩 𐓁 𐓪 𐓂 𐓫 𐓃 𐓬 𐓄 𐓭 𐓅 𐓮 𐓆 𐓯 𐓇",
    "𐓰 𐓈 𐓱 𐓉 𐓲 𐓊 𐓳 𐓋 𐓴 𐓌 𐓵 𐓍 𐓶 𐓎 𐓷 𐓏 𐓸 𐓐 𐓹 𐓑 𐓺 𐓒 𐓻 𐓓 𐖗 𐕰 𐖘 𐕱 𐖙 𐕲 𐖚 𐕳 𐖛 𐕴 𐖜 𐕵 𐖝 𐕶 𐖞 𐕷 𐖟 𐕸 𐖠 𐕹",
    "𐖡 𐕺 𐖣 𐕼 𐖤 𐕽 𐖥 𐕾 𐖦 𐕿 𐖧 𐖀 𐖨 𐖁 𐖩 𐖂 𐖪 𐖃 𐖫 𐖄 𐖬 𐖅 𐖭 𐖆 𐖮 𐖇 𐖯 𐖈 𐖰 𐖉 𐖱 𐖊 𐖳 𐖌 𐖴 𐖍 𐖵 𐖎 𐖶 𐖏 𐖷 𐖐 𐖸 𐖑",
    "𐖹 𐖒 𐖻 𐖔 𐖼 𐖕 𐳀 𐲀 𐳁 𐲁 𐳂 𐲂 𐳃 𐲃 𐳄 𐲄 𐳅 𐲅 𐳆 𐲆 𐳇 𐲇 𐳈 𐲈 𐳉 𐲉 𐳊 𐲊 𐳋 𐲋 𐳌 𐲌 𐳍 𐲍 𐳎 𐲎 𐳏 𐲏 𐳐 𐲐 𐳑 𐲑 𐳒 𐲒",
    "𐳓 𐲓 𐳔 𐲔 𐳕 𐲕 𐳖 𐲖 𐳗 𐲗 𐳘 𐲘 𐳙 𐲙 𐳚 𐲚 𐳛 𐲛 𐳜 𐲜 𐳝 𐲝 𐳞 𐲞 𐳟 𐲟 𐳠 𐲠 𐳡 𐲡 𐳢 𐲢 𐳣 𐲣 𐳤 𐲤 𐳥 𐲥 𐳦 𐲦 𐳧 𐲧 𐳨 𐲨",
    "𐳩 𐲩 𐳪 𐲪 𐳫 𐲫 𐳬 𐲬 𐳭 𐲭 𐳮 𐲮 𐳯 𐲯 𐳰 𐲰 𐳱 𐲱 𐳲 𐲲 𑣀 𑢠 𑣁 𑢡 𑣂 𑢢 𑣃 𑢣 𑣄 𑢤 𑣅 𑢥 𑣆 𑢦 𑣇 𑢧 𑣈 𑢨 𑣉 𑢩 𑣊 𑢪 𑣋 𑢫",
    "𑣌 𑢬 𑣍 𑢭 𑣎 𑢮 𑣏 𑢯 𑣐 𑢰 𑣑 𑢱 𑣒 𑢲 𑣓 𑢳 𑣔 𑢴 𑣕 𑢵 𑣖 𑢶 𑣗 𑢷 𑣘 𑢸 𑣙 𑢹 𑣚 𑢺 𑣛 𑢻 𑣜 𑢼 𑣝 𑢽 𑣞 𑢾 𑣟 𑢿 𖹠 𖹀 𖹡 𖹁",
    "𖹢 𖹂 𖹣 𖹃 𖹤 𖹄 𖹥 𖹅 𖹦 𖹆 𖹧 𖹇 𖹨 𖹈 𖹩 𖹉 𖹪 𖹊 𖹫 𖹋 𖹬 𖹌 𖹭 𖹍 𖹮 𖹎 𖹯 𖹏 𖹰 𖹐 𖹱 𖹑 𖹲 𖹒 𖹳 𖹓 𖹴 𖹔 𖹵 𖹕 𖹶 𖹖 𖹷 𖹗",
    "𖹸 𖹘 𖹹 𖹙 𖹺 𖹚 𖹻 𖹛 𖹼 𖹜 𖹽 𖹝 𖹾 𖹞 𖹿 𖹟 𞤢 𞤀 𞤣 𞤁 𞤤 𞤂 𞤥 𞤃 𞤦 𞤄 𞤧 𞤅 𞤨 𞤆 𞤩 𞤇 𞤪 𞤈 𞤫 𞤉 𞤬 𞤊 𞤭 𞤋 𞤮 𞤌 𞤯 𞤍",
    "𞤰 𞤎 𞤱 𞤏 𞤲 𞤐 𞤳 𞤑 𞤴 𞤒 𞤵 𞤓 𞤶 𞤔 𞤷 𞤕 𞤸 𞤖 𞤹 𞤗 𞤺 𞤘 𞤻 𞤙 𞤼 𞤚 𞤽 𞤛 𞤾 𞤜 𞤿 𞤝 𞥀 𞤞 𞥁 𞤟 𞥂 𞤠 𞥃 𞤡"]

/-- Takes words two by two; the first of each pair is a single character. -/
def foldPairs : List String → List (Char × List Char)
  | c :: folded :: rest =>
    match c.toList with
    | [c] => (c, folded.toList) :: foldPairs rest
    | _ => foldPairs rest
  | _ => []

/-- The characters beyond ASCII that folding changes, with what they become. -/
def caseFolds : List (Char × List Char) :=
  caseFoldLines.flatMap (fun line => foldPairs (line.splitOn " "))

/-- What a character becomes. -/
def foldChar (c : Char) : List Char :=
  if c.toNat < 0x80 then [c.toUpper]
  else ((caseFolds.find? (fun entry => entry.1 == c)).map Prod.snd).getD [c]

/-- A text without distinction of case. -/
def foldCase (cs : List Char) : List Char :=
  cs.flatMap foldChar

end LiveMarkdown
