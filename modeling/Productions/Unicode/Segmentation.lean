import Productions.Unicode.Binary

/-! The classes by which text is cut into graphemes, words and sentences. Each class is listed, or
derived from other properties by the rule of the standard. -/
namespace Productions.Unicode

namespace GraphemeBreak

def names : List (String × List String) := [
  ("CR", []), ("Control", ["CN"]), ("Extend", ["EX"]), ("L", []), ("LF", []), ("LV", []),
  ("LVT", []), ("Prepend", ["PP"]), ("Regional_Indicator", ["RI"]), ("SpacingMark", ["SM"]),
  ("T", []), ("V", []), ("ZWJ", []), ("Other", ["XX"]), ("E_Base", ["EB"]),
  ("E_Base_GAZ", ["EBG"]), ("E_Modifier", ["EM"]), ("Glue_After_Zwj", ["GAZ"])]

def ranges : List (String × String) := [
  ("CR",
    "D"),
  ("Control",
    "0-9 B-C E-1F 7F-9F AD 61C 180E 200B 200E-200F 2028-202E 2060-206F FEFF FFF0-FFFB 13430-1343F
    1BCA0-1BCA3 1D173-1D17A E0000-E001F E0080-E00FF E01F0-E0FFF"),
  ("L",
    "1100-115F A960-A97C"),
  ("LF",
    "A"),
  ("Prepend",
    "600-605 6DD 70F 890-891 8E2 D4E 110BD 110CD 111C2-111C3 1193F 11941 11A3A 11A84-11A89 11D46
    11F02"),
  ("Regional_Indicator",
    "1F1E6-1F1FF"),
  ("SpacingMark",
    "903 93B 93E-940 949-94C 94E-94F 982-983 9BF-9C0 9C7-9C8 9CB-9CC A03 A3E-A40 A83 ABE-AC0 AC9
    ACB-ACC B02-B03 B40 B47-B48 B4B-B4C BBF BC1-BC2 BC6-BC8 BCA-BCC C01-C03 C41-C44 C82-C83 CBE
    CC0-CC1 CC3-CC4 CC7-CC8 CCA-CCB CF3 D02-D03 D3F-D40 D46-D48 D4A-D4C D82-D83 DD0-DD1 DD8-DDE
    DF2-DF3 E33 EB3 F3E-F3F F7F 1031 103B-103C 1056-1057 1084 1715 1734 17B6 17BE-17C5 17C7-17C8
    1923-1926 1929-192B 1930-1931 1933-1938 1A19-1A1A 1A55 1A57 1A6D-1A72 1B04 1B3B 1B3D-1B41
    1B43-1B44 1B82 1BA1 1BA6-1BA7 1BAA 1BE7 1BEA-1BEC 1BEE 1BF2-1BF3 1C24-1C2B 1C34-1C35 1CE1
    1CF7 A823-A824 A827 A880-A881 A8B4-A8C3 A952-A953 A983 A9B4-A9B5 A9BA-A9BB A9BE-A9C0
    AA2F-AA30 AA33-AA34 AA4D AAEB AAEE-AAEF AAF5 ABE3-ABE4 ABE6-ABE7 ABE9-ABEA ABEC 11000 11002
    11082 110B0-110B2 110B7-110B8 1112C 11145-11146 11182 111B3-111B5 111BF-111C0 111CE
    1122C-1122E 11232-11233 11235 112E0-112E2 11302-11303 1133F 11341-11344 11347-11348
    1134B-1134D 11362-11363 113B8-113BA 113C2 113C5 113C7-113CA 113CC-113CD 113CF 11435-11437
    11440-11441 11445 114B1-114B2 114B9 114BB-114BC 114BE 114C1 115B0-115B1 115B8-115BB 115BE
    11630-11632 1163B-1163C 1163E 116AC 116AE-116AF 116B6 11726 1182C-1182E 11838 11931-11935
    11937-11938 1193D 11940 11942 119D1-119D3 119DC-119DF 119E4 11A39 11A57-11A58 11A97 11C2F
    11C3E 11CA9 11CB1 11CB4 11D8A-11D8E 11D93-11D94 11D96 11EF5-11EF6 11F03 11F34-11F35
    11F3E-11F3F 11F41 1612A-1612C 16F51-16F87 16FF0-16FF1 1D166 1D16D"),
  ("T",
    "11A8-11FF D7CB-D7FB"),
  ("V",
    "1160-11A7 D7B0-D7C6"),
  ("ZWJ",
    "200D")]

/-- Hangul syllables without a final consonant: every 28th of the block. -/
def syllablesLV : CodeSet :=
  CodeSet.ofList ((List.range 399).map fun k => (0xAC00 + 28 * k, 0xAC00 + 28 * k))

def set? (name : String) : Option CodeSet :=
  match name with
  | "LV" => some syllablesLV
  | "LVT" => some ((CodeSet.ofList [(0xAC00, 0xD7A3)]).difference .scalars syllablesLV)
  | "Extend" => some (Binary.graphemeExtend.union (Binary.listed "Emoji_Modifier"))
  | _ => (ranges.lookup name).map CodeSet.ofText

end GraphemeBreak

namespace WordBreak

def names : List (String × List String) := [
  ("ALetter", ["LE"]), ("CR", []), ("Double_Quote", ["DQ"]), ("Extend", []),
  ("ExtendNumLet", ["EX"]), ("Format", ["FO"]), ("Hebrew_Letter", ["HL"]), ("Katakana", ["KA"]),
  ("LF", []), ("MidLetter", ["ML"]), ("MidNum", ["MN"]), ("MidNumLet", ["MB"]),
  ("Newline", ["NL"]), ("Numeric", ["NU"]), ("Regional_Indicator", ["RI"]),
  ("Single_Quote", ["SQ"]), ("WSegSpace", []), ("ZWJ", []), ("Other", ["XX"]),
  ("E_Base", ["EB"]), ("E_Base_GAZ", ["EBG"]), ("E_Modifier", ["EM"]), ("Glue_After_Zwj", ["GAZ"])]

def ranges : List (String × String) := [
  ("CR",
    "D"),
  ("Double_Quote",
    "22"),
  ("ExtendNumLet",
    "5F 202F 203F-2040 2054 FE33-FE34 FE4D-FE4F FF3F"),
  ("Format",
    "AD 600-605 61C 6DD 70F 890-891 8E2 180E 200E-200F 202A-202E 2060-2064 2066-206F FEFF
    FFF9-FFFB 110BD 110CD 13430-1343F 1BCA0-1BCA3 1D173-1D17A E0001"),
  ("Hebrew_Letter",
    "5D0-5EA 5EF-5F2 FB1D FB1F-FB28 FB2A-FB36 FB38-FB3C FB3E FB40-FB41 FB43-FB44 FB46-FB4F"),
  ("Katakana",
    "3031-3035 309B-309C 30A0-30FA 30FC-30FF 31F0-31FF 32D0-32FE 3300-3357 FF66-FF9D 1AFF0-1AFF3
    1AFF5-1AFFB 1AFFD-1AFFE 1B000 1B120-1B122 1B155 1B164-1B167"),
  ("LF",
    "A"),
  ("MidLetter",
    "3A B7 387 55F 5F4 2027 FE13 FE55 FF1A"),
  ("MidNum",
    "2C 3B 37E 589 60C-60D 66C 7F8 2044 FE10 FE14 FE50 FE54 FF0C FF1B"),
  ("MidNumLet",
    "2E 2018-2019 2024 FE52 FF07 FF0E"),
  ("Newline",
    "B-C 85 2028-2029"),
  ("Numeric",
    "30-39 660-669 66B 6F0-6F9 7C0-7C9 966-96F 9E6-9EF A66-A6F AE6-AEF B66-B6F BE6-BEF C66-C6F
    CE6-CEF D66-D6F DE6-DEF E50-E59 ED0-ED9 F20-F29 1040-1049 1090-1099 17E0-17E9 1810-1819
    1946-194F 19D0-19D9 1A80-1A89 1A90-1A99 1B50-1B59 1BB0-1BB9 1C40-1C49 1C50-1C59 A620-A629
    A8D0-A8D9 A900-A909 A9D0-A9D9 A9F0-A9F9 AA50-AA59 ABF0-ABF9 FF10-FF19 104A0-104A9
    10D30-10D39 10D40-10D49 11066-1106F 110F0-110F9 11136-1113F 111D0-111D9 112F0-112F9
    11450-11459 114D0-114D9 11650-11659 116C0-116C9 116D0-116E3 11730-11739 118E0-118E9
    11950-11959 11BF0-11BF9 11C50-11C59 11D50-11D59 11DA0-11DA9 11F50-11F59 16130-16139
    16A60-16A69 16AC0-16AC9 16B50-16B59 16D70-16D79 1CCF0-1CCF9 1D7CE-1D7FF 1E140-1E149
    1E2F0-1E2F9 1E4F0-1E4F9 1E5F1-1E5FA 1E950-1E959 1FBF0-1FBF9"),
  ("Regional_Indicator",
    "1F1E6-1F1FF"),
  ("Single_Quote",
    "27"),
  ("WSegSpace",
    "20 1680 2000-2006 2008-200A 205F 3000"),
  ("ZWJ",
    "200D")]

def extend : CodeSet :=
  (CodeSet.unionAll [Binary.graphemeExtend, Binary.categories ["Spacing_Mark"],
    Binary.listed "Emoji_Modifier"]).difference .scalars (CodeSet.ofText "200D")

def furtherLetters : CodeSet := CodeSet.ofText
  "2C2-2C5 2D2-2D7 2DE-2DF 2E5-2EB 2ED 2EF-2FF 55A-55C 55E 58A 5F3 A708-A716 A720-A721
  A789-A78A AB5B"

def dictionaryLetters : CodeSet := CodeSet.ofText
  "E01-E30 E32-E33 E40-E46 E81-E82 E84 E86-E8A E8C-EA3 EA5 EA7-EB0 EB2-EB3 EBD EC0-EC4 EC6 EDC-
  EDF 1000-102A 103F 1050-1055 105A-105D 1061 1065-1066 106E-1070 1075-1081 108E 1780-17B3
  17D7 17DC 1950-196D 1970-1974 1980-19AB 19B0-19C9 1A20-1A54 1AA7 3041-3096 309D-309F
  A9E0-A9E4 A9E6-A9EF A9FA-A9FE AA60-AA76 AA7A AA7E-AAAF AAB1 AAB5-AAB6 AAB9-AABD AAC0 AAC2
  AADB-AADD 11700-1171A 11740-11746 1B001-1B11F 1B132 1B150-1B152"

def letter : CodeSet :=
  (Binary.alphabetic.difference .scalars (CodeSet.unionAll [extend, Binary.listed "Ideographic",
    CodeSet.ofText ((ranges.lookup "Katakana").getD ""),
    CodeSet.ofText ((ranges.lookup "Hebrew_Letter").getD ""), dictionaryLetters])).union
    furtherLetters

def set? (name : String) : Option CodeSet :=
  match name with
  | "ALetter" => some letter
  | "Extend" => some extend
  | _ => (ranges.lookup name).map CodeSet.ofText

end WordBreak

namespace SentenceBreak

def names : List (String × List String) := [
  ("ATerm", ["AT"]), ("CR", []), ("Close", ["CL"]), ("Extend", ["EX"]), ("Format", ["FO"]),
  ("LF", []), ("Lower", ["LO"]), ("Numeric", ["NU"]), ("OLetter", ["LE"]), ("SContinue", ["SC"]),
  ("STerm", ["ST"]), ("Sep", ["SE"]), ("Sp", []), ("Upper", ["UP"]), ("Other", ["XX"])]

def ranges : List (String × String) := [
  ("ATerm",
    "2E 2024 FE52 FF0E"),
  ("CR",
    "D"),
  ("Close",
    "22 27-29 5B 5D 7B 7D AB BB F3A-F3D 169B-169C 2018-201F 2039-203A 2045-2046 207D-207E
    208D-208E 2308-230B 2329-232A 275B-2760 2768-2775 27C5-27C6 27E6-27EF 2983-2998 29D8-29DB
    29FC-29FD 2E00-2E0D 2E1C-2E1D 2E20-2E29 2E42 2E55-2E5C 3008-3011 3014-301B 301D-301F
    FD3E-FD3F FE17-FE18 FE35-FE44 FE47-FE48 FE59-FE5E FF08-FF09 FF3B FF3D FF5B FF5D FF5F-FF60
    FF62-FF63 1F676-1F678"),
  ("Format",
    "AD 600-605 61C 6DD 70F 890-891 8E2 180E 200B 200E-200F 202A-202E 2060-2064 2066-206F FEFF
    FFF9-FFFB 110BD 110CD 13430-1343F 1BCA0-1BCA3 1D173-1D17A E0001"),
  ("LF",
    "A"),
  ("Numeric",
    "30-39 660-669 66B-66C 6F0-6F9 7C0-7C9 966-96F 9E6-9EF A66-A6F AE6-AEF B66-B6F BE6-BEF
    C66-C6F CE6-CEF D66-D6F DE6-DEF E50-E59 ED0-ED9 F20-F29 1040-1049 1090-1099 17E0-17E9
    1810-1819 1946-194F 19D0-19D9 1A80-1A89 1A90-1A99 1B50-1B59 1BB0-1BB9 1C40-1C49 1C50-1C59
    A620-A629 A8D0-A8D9 A900-A909 A9D0-A9D9 A9F0-A9F9 AA50-AA59 ABF0-ABF9 FF10-FF19 104A0-104A9
    10D30-10D39 10D40-10D49 11066-1106F 110F0-110F9 11136-1113F 111D0-111D9 112F0-112F9
    11450-11459 114D0-114D9 11650-11659 116C0-116C9 116D0-116E3 11730-11739 118E0-118E9
    11950-11959 11BF0-11BF9 11C50-11C59 11D50-11D59 11DA0-11DA9 11F50-11F59 16130-16139
    16A60-16A69 16AC0-16AC9 16B50-16B59 16D70-16D79 1CCF0-1CCF9 1D7CE-1D7FF 1E140-1E149
    1E2F0-1E2F9 1E4F0-1E4F9 1E5F1-1E5FA 1E950-1E959 1FBF0-1FBF9"),
  ("SContinue",
    "2C-2D 3A 55D 60C-60D 7F8 1802 1808 2013-2014 3001 FE10-FE11 FE13 FE31-FE32 FE50-FE51 FE55
    FE58 FE63 FF0C-FF0D FF1A FF64"),
  ("STerm",
    "21 3F 589 61D-61F 6D4 700-702 7F9 837 839 83D-83E 964-965 104A-104B 1362 1367-1368 166E
    1735-1736 1803 1809 1944-1945 1AA8-1AAB 1B5A-1B5B 1B5E-1B5F 1B7D-1B7E 1C3B-1C3C 1C7E-1C7F
    203C-203D 2047-2049 2E2E 2E3C 2E53-2E54 3002 A4FF A60E-A60F A6F3 A6F7 A876-A877 A8CE-A8CF
    A92F A9C8-A9C9 AA5D-AA5F AAF0-AAF1 ABEB FE56-FE57 FF01 FF1F FF61 10A56-10A57 10F55-10F59
    10F86-10F89 11047-11048 110BE-110C1 11141-11143 111C5-111C6 111CD 111DE-111DF 11238-11239
    1123B-1123C 112A9 1144B-1144C 115C2-115C3 115C9-115D7 11641-11642 1173C-1173E 11944 11946
    11A42-11A43 11A9B-11A9C 11C41-11C42 11EF7-11EF8 11F43-11F44 16A6E-16A6F 16AF5 16B37-16B38
    16B44 16E98 1BC9F 1DA88"),
  ("Sep",
    "85 2028-2029"),
  ("Sp",
    "9 B-C 20 A0 1680 2000-200A 202F 205F 3000")]

def extend : CodeSet :=
  CodeSet.unionAll [Binary.graphemeExtend, Binary.categories ["Spacing_Mark"],
    CodeSet.ofText "200D"]

def lower : CodeSet :=
  (Binary.lowercase.difference .scalars Binary.graphemeExtend).difference .scalars
    (CodeSet.ofText "10D0-10FA 10FD-10FF")

def upper : CodeSet :=
  (Binary.uppercase.union (Binary.categories ["Titlecase_Letter"])).difference .scalars
    (CodeSet.ofText "1C90-1CBA 1CBD-1CBF")

def caseless : CodeSet :=
  (Binary.alphabetic.difference .scalars (CodeSet.unionAll [lower, upper, extend])).union
    (CodeSet.ofText "5F3")

def set? (name : String) : Option CodeSet :=
  match name with
  | "Lower" => some lower
  | "Upper" => some upper
  | "OLetter" => some caseless
  | "Extend" => some extend
  | _ => (ranges.lookup name).map CodeSet.ofText

end SentenceBreak

end Productions.Unicode
