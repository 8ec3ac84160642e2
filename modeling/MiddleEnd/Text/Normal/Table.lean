import MiddleEnd.Text.Ranges

/-!
Canonical decompositions and combining classes of Unicode 15.0, without the syllables that are
composed by rule, and the characters whose compatible form has marks at its ends.
-/

namespace MiddleEnd.Text.Normal

/-- A character with its decomposition into one or two; a mark says that it is never composed. -/
structure Decomposition where
  char : Nat
  composed : Bool
  parts : List Nat
  deriving Repr, Inhabited

/-- The most frequent second parts. Each goes by a capital letter. -/
def secondParts : Array Nat := ((HexTable.entries
  "301 300 345 308 3099 307 304 338 323 30c 302 306 342 303 309 327 331 314 30f
   313 311 32d 1b35 328 309a 30a").map Prod.snd).toArray

/-- What was read so far and the character that is next. A number behind a blank skips characters,
one behind a plus is a second part, and any other decomposes the next character. -/
def addDecomposition : Nat × Array Decomposition → Char × Nat → Nat × Array Decomposition
  | (next, ds), (' ', n) => (next + n, ds)
  | (next, ds), ('+', n) =>
    (next, ds.modify (ds.size - 1) fun d => { d with parts := d.parts ++ [n] })
  | (next, ds), (mark, n) =>
    (next + 1, ds.push ⟨next, mark < '~', n :: secondParts[mark.toNat - 65]?.toList⟩)

structure ClassRange where
  low : Nat
  high : Nat
  combiningClass : Nat
  deriving Repr, Inhabited

/-- A range has the class of the one before it unless another stands behind a colon. -/
def addClass (cs : Array ClassRange) : Char × Nat → Array ClassRange
  | ('-', n) => cs.modify (cs.size - 1) fun c => { c with high := c.high + n }
  | (':', n) => cs.modify (cs.size - 1) fun c => { c with combiningClass := n }
  | (_, n) =>
    let last := cs.back?.getD default
    cs.push { last with low := last.high + n, high := last.high + n }

def classRanges : Array ClassRange := (HexTable.entries
  "300-14:e6 1:e8 1-3:dc 1:e8 1:d8 1-4:dc 1-1:ca 1-3:dc 1-1:ca 1-a:dc 1-4:1 1-3:dc 1-7:e6 1:f0 1:e6
   1-2:dc 1-2:e6 1-1:dc 2-2:e6 1-3:dc 1:e6 1:e8 1-1:dc 1:e6 1:e9 1-1:ea 1:e9 1-1:ea 1:e9 1-c:e6
   114-4 10a:dc 1-3:e6 1:dc 1-2:e6 1:de 1:dc 1-5:e6 1-5:dc 1-1:e6 1:dc 1-1:e6 1:de 1:e4 1:e6 1:a
   1:b 1:c 1:d 1:e 1:f 1:10 1:11 1:12 1-1:13 1:14 1:15 1:16 2:17 2:18 1:19 2:e6 1:dc 2:12 49-7:e6
   1:1e 1:1f 1:20 31:1b 1:1c 1:1d 1:1e 1:1f 1:20 1:21 1:22 1-1:e6 1-1:dc 1-4:e6 1:dc 1-1:e6 1:dc
   11:23 66-6:e6 3-3 1:dc 1:e6 3-1 2:dc 1-1:e6 1:dc 24:24 1f:e6 1:dc 1-1:e6 1:dc 1-1:e6 1-2:dc 1:e6
   1-1:dc 1:e6 1:dc 1-2:e6 1:dc 1:e6 1:dc 1:e6 1:dc 1:e6 1:dc 1-1:e6 a1-6 1:dc 1:e6 a:dc 19-3:e6
   2-8 2-2 2-4 2c-2:dc 3d:e6 1-2:dc 1-3:e6 2b-4 1-4:dc 1-d:e6 2:dc 1-1:e6 1:dc 1-1:e6 1:dc 1-2:e6
   1-2:dc 1:1b 1:1c 1:1d 1-2:e6 1:dc 1-1:e6 1-1:dc 1-4:e6 3d:7 11:9 4:e6 1:dc 1-1:e6 68:7 11:9
   31:e6 3e:7 11:9 6f:7 11:9 6f:7 11:9 80 6f:7 11:9 8:54 1:5b 66:7 11:9 6e-1 11 7d 6e-1:67 1:9
   e-3:6b 6d-1:76 1:9 e-3:7a 4d-1:dc 1c 2 2:d8 38:81 1:82 2:84 6-3:82 3 2-1:e6 1:9 2-1:e6 3f:dc
   71:7 2-1:9 53:dc 2d0-2:e6 3b5-1:9 1f 9e b:e6 cc:e4 90:de 1:e6 1:dc dc:e6 1:dc 48:9 15-7:e6 3:dc
   31-4:e6 1-5:dc 1-1:e6 1:dc 2-1 1-1:e6 1-1:dc 1-4:e6 1:dc 1-3:e6 66:7 10:9 27:e6 1:dc 1-6:e6
   37-1:9 3b:7 c-1:9 44:7 99-2:e6 2:1 1-4:dc 1-1:e6 1-3:dc 1:e6 2-6:1 5:dc 7:e6 4-1 c7-1 1:dc
   1-6:e6 1:dc 1-1:e6 1:ea 1:d6 1:dc 1:ca 1-24:e6 1:e8 1-1:e4 1:dc 1:da 1:e6 1:e9 1:dc 1:e6 1:dc
   2d1-1:e6 1-1:1 1-3:e6 1-2:1 1-1:e6 5 4-1:1 1:e6 1:dc 1:e6 1-1:1 1-3:dc 1:e6 bff-2 8e:9 61-1f:e6
   22b:da 1:e4 1:e8 1:de 1-1:e0 6a-1:8 75d5:e6 5-9 21-1 51-1 115:9 26 98 1c-11:e6 3a-2:dc 26:9 60:7
   d:9 f0:e6 2-1 1:dc 3-1:e6 6-1 2 35:9 f7 4f31:1a 302-6:e6 1-6:dc 1-1:e6 3ce:dc e3 96-4:e6 693:dc
   2:e6 29 1:1 1:dc 5:9 a6:e6 1:dc 23e-3:e6 184-1 51-2:dc 47-1 1-2:e6 1:dc 1:e6 1-3:dc 32:e6 1:dc
   1:e6 1:dc c1:9 2a f 3a 1:7 46-2:e6 31-1:9 3f:7 4d:9 a:7 6b:9 1:7 b3 1:9 51-1:7 11:9 19-6:e6 4-4
   ce:9 4:7 18:e6 64:9 1:7 fc:9 1:7 7f:9 77 1:7 74:9 10e 1:7 103-1:9 5:7 9d:9 54 13 52 1a6 103:7
   2-1:9 52 1aa-1 4bae-4:1 3c-6:e6 4ba-1:6 4cad:1 14c7-1:d8 1-2:1 4:e2 1-4:d8 9-7:dc 3-4:e6 1-1:dc
   1f-3:e6 95-2 dbc-6 2-10 3-6 2-1 2-4 65 a1-6 178 3e-3 1fd-1:e8 1:dc 1:e6 3e1-6:dc 6e-5:e6 1:7"
  ).foldl addClass #[]

/-- Characters that stand for a single mark in compatible form. -/
def markForms : Ranges := .ofString
  "3133 2-1 4-5 10-14 ce3b-1 4 2-1 4-5 13-5 3-5 3-5 3-2"

def onceMarkedForms : Ranges := .ofString
  "a8 7 5 4 10c-2 112-5 9d a 1c39 2-1 3d-1 19 27 105d-1 1d2-10 86 3 9 e 3 11 9 5 b 3 c856-1 b-1
   aa-2 33 49 63-1 10c-3 24-2 2 2-9 2-b 69-5 e9 f230"

def twiceMarkedForms : Ranges := .ofString "385 bf2 2 1048 c-2 e-2 e-1 dc70-5 8f-2"

def decompositions : Array Decomposition := ((HexTable.entries
  "c0B41A41K41N41D41Z41 1P43B45A45K45D45B49A49K49D49 1N4eB4fA4fK4fN4fD4f 2B55A55K55D55A59 2B61
   A61K61N61D61Z61 1P63B65A65K65D65B69A69K69D69 1N6eB6fA6fK6fN6fD6f 2B75A75K75D75A79 1D79G41G61
   L41L61X41X61A43A63K43K63F43F63J43J63J44J64 2G45G65L45L65F45F65X45X65J45J65K47K67L47L67F47F67
   P47P67K48K68 2N49N69G49G69L49L69X49X69F49 3K4aK6aP4bP6b 1A4cA6cP4cP6cJ4cJ6c 4A4eA6eP4eP6eJ4e
   J6e 3G4fG6fL4fL6f|4f+30b|6f+30b 2A52A72P52P72J52J72A53A73K53K73P53P73J53J73P54P74J54J74 2N55
   N75G55G75L55L75Z55Z75|55+30b|75+30bX55X75K57K77K59K79D59A5aA7aF5aF7aJ5aJ7a 21|4f+31b|6f+31b d
   |55+31b|75+31b 1cJ41J61J49J69J4fJ6fJ55J75GdcGfcAdcAfcJdcJfcBdcBfc 1Gc4Ge4G226G227Gc6Ge6 2J47
   J67J4bJ6bX4fX6fG1eaG1ebJ1b7J292J6a 3A47A67 2B4eB6eAc5Ae5Ac6Ae6Ad8Af8S41S61U41U61S45S65U45U65
   S49S69U49U69S4fS6fU4fU6fS52S72U52U72S55S75U55U75|53+326|73+326|54+326|74+326 2J48J68 6F41F61
   P45P65Gd6Gf6Gd5Gf5F4fF6fG22eG22fG59G79 10c~300~301 1~313~308+301 2f~2b9 9~3b 6Aa8A391~b7A395
   A397A399 1A39f 1A3a5A3a9A3ca 19D399D3a5A3b1A3b5A3b7A3b9A3cb 19D3b9D3c5A3bfA3c5A3c9 4A3d2D3d2
   2bB415D415 1A413 3D406 4A41aB418L423 aL418 1fL438 16B435D435 1A433 3D456 4A43aB438L443 17S474
   S475 49L416L436 dL410L430D410D430 2L415L435 2D4d8D4d9D416D436D417D437 2G418G438D418D438D41e
   D43e 2D4e8D4e9D42dD44dG423G443D423D443|423+30b|443+30bD427D447 2D42bD44b 128|627+653|627+654
   |648+654|627+655|64a+654 99|6d5+654 1|6c1+654 10|6d2+654 255|928+93c 7|930+93c 2|933+93c 23
   ~915+93c~916+93c~917+93c~91c+93c~921+93c~922+93c~92b+93c~92f+93c 6b|9c7+9be|9c7+9d7 f~9a1+9bc
   ~9a2+9bc 1~9af+9bc 53~a32+a3c 2~a38+a3c 22~a16+a3c~a17+a3c~a1c+a3c 2~a2b+a3c e9|b47+b56 2
   |b47+b3e|b47+b57 f~b21+b3c~b22+b3c 36|b92+bd7 35|bc6+bbe|bc7+bbe|bc6+bd7 7b|c46+c56 77|cbf+cd5
   6|cc6+cd5|cc6+cd6 1|cc6+cc2|cca+cd5 7e|d46+d3e|d47+d3e|d46+d57 8d|dd9+dca 1|dd9+dcf|ddc+dca
   |dd9+ddf 164~f42+fb7 9~f4c+fb7 4~f51+fb7 4~f56+fb7 4~f5b+fb7 c~f40+fb5 9~f71+f72 1~f71+f74
   ~fb2+f80 1~fb3+f80 8~f71+f80 11~f92+fb7 9~f9c+fb7 4~fa1+fb7 4~fa6+fb7 4~fab+fb7 c~f90+fb5 6c
   |1025+102e adfW1b05 1W1b07 1W1b09 1W1b0b 1W1b0d 3W1b11 28W1b3a 1W1b3c 2W1b3eW1b3f 1W1b42 2bc
   |41+325|61+325F42F62I42I62Q42Q62Ac7Ae7F44F64I44I64Q44Q64P44P64V44V64B112B113A112A113V45V65
   |45+330|65+330L228L229F46F66G47G67F48F68I48I68D48D68P48P68|48+32e|68+32e|49+330|69+330AcfAef
   A4bA6bI4bI6bQ4bQ6bI4cI6cG1e36G1e37Q4cQ6cV4cV6cA4dA6dF4dF6dI4dI6dF4eF6eI4eI6eQ4eQ6eV4eV6eAd5Af5
   Dd5Df5B14cB14dA14cA14dA50A70F50F70F52F72I52I72G1e5aG1e5bQ52Q72F53F73I53I73F15aF15bF160F161
   F1e62F1e63F54F74I54I74Q54Q74V54V74|55+324|75+324|55+330|75+330V55V75A168A169D16aD16bN56N76I56
   I76B57B77A57A77D57D77F57F77I57I77F58F78D58D78F59F79K5aK7aI5aI7aQ5aQ7aQ68D74Z77Z79 1F17f 4I41
   I61O41O61Ac2Ae2Bc2Be2Oc2Oe2Nc2Ne2K1ea0K1ea1A102A103B102B103O102O103N102N103L1ea0L1ea1I45I65O45
   O65N45N65AcaAeaBcaBeaOcaOeaNcaNeaK1eb8K1eb9O49O69I49I69I4fI6fO4fO6fAd4Af4Bd4Bf4Od4Of4Nd4Nf4
   K1eccK1ecdA1a0A1a1B1a0B1a1O1a0O1a1N1a0N1a1I1a0I1a1I55I75O55O75A1afA1b0B1afB1b0O1afO1b0N1afN1b0
   I1afI1b0B59B79I59I79O59O79N59N79 6T3b1R3b1B1f00B1f01A1f00A1f01M1f00M1f01T391R391B1f08B1f09
   A1f08A1f09M1f08M1f09T3b5R3b5B1f10B1f11A1f10A1f11 2T395R395B1f18B1f19A1f18A1f19 2T3b7R3b7B1f20
   B1f21A1f20A1f21M1f20M1f21T397R397B1f28B1f29A1f28A1f29M1f28M1f29T3b9R3b9B1f30B1f31A1f30A1f31
   M1f30M1f31T399R399B1f38B1f39A1f38A1f39M1f38M1f39T3bfR3bfB1f40B1f41A1f40A1f41 2T39fR39fB1f48
   B1f49A1f48A1f49 2T3c5R3c5B1f50B1f51A1f50A1f51M1f50M1f51 1R3a5 1B1f59 1A1f59 1M1f59T3c9R3c9
   B1f60B1f61A1f60A1f61M1f60M1f61T3a9R3a9B1f68B1f69A1f68A1f69M1f68M1f69B3b1~3acB3b5~3adB3b7~3ae
   B3b9~3afB3bf~3ccB3c5~3cdB3c9~3ce 2C1f00C1f01C1f02C1f03C1f04C1f05C1f06C1f07C1f08C1f09C1f0aC1f0b
   C1f0cC1f0dC1f0eC1f0fC1f20C1f21C1f22C1f23C1f24C1f25C1f26C1f27C1f28C1f29C1f2aC1f2bC1f2cC1f2d
   C1f2eC1f2fC1f60C1f61C1f62C1f63C1f64C1f65C1f66C1f67C1f68C1f69C1f6aC1f6bC1f6cC1f6dC1f6eC1f6fL3b1
   G3b1C1f70C3b1C3ac 1M3b1C1fb6L391G391B391~386C391 1~3b9 2Ma8C1f74C3b7C3ae 1M3b7C1fc6B395~388
   B397~389C397B1fbfA1fbfM1fbfL3b9G3b9B3ca~390 2M3b9M3caL399G399B399~38a 1B1ffeA1ffeM1ffeL3c5G3c5
   B3cb~3b0T3c1R3c1M3c5M3cbL3a5G3a5B3a5~38eR3a1Ba8~385~60 2C1f7cC3c9C3ce 1M3c9C1ff6B39f~38cB3a9
   ~38fC3a9~b4 2~2002~2003 124~3a9 3~4b~c5 6eH2190H2192 12H2194 1eH21d0H21d4H21d2 34H2203 4H2208
   2H220b 17H2223 1H2225 1aH223c 2H2243 2H2245 1H2248 16H3d 1H2261 aH224dH3cH3eH2264H2265 2H2272
   H2273 2H2276H2277 6H227aH227b 2H2282H2283 2H2286H2287 22H22a2H22a8H22a9H22ab 30H227cH227dH2291
   H2292 6H22b2H22b3H22b4H22b5 3b~3008~3009 7b1~2add+338 56fE304b 1E304d 1E304f 1E3051 1E3053 1
   E3055 1E3057 1E3059 1E305b 1E305d 1E305f 1E3061 2E3064 1E3066 1E3068 6E306fY306f 1E3072Y3072 1
   E3075Y3075 1E3078Y3078 1E307bY307b 16E3046 9E309d dE30ab 1E30ad 1E30af 1E30b1 1E30b3 1E30b5 1
   E30b7 1E30b9 1E30bb 1E30bd 1E30bf 1E30c1 2E30c4 1E30c6 1E30c8 6E30cfY30cf 1E30d2Y30d2 1E30d5
   Y30d5 1E30d8Y30d8 1E30dbY30db 16E30a6 2E30efE30f0E30f1E30f2 3E30fd c801豈更車賈滑串句龜龜契金
   喇奈懶癩羅蘿螺裸邏樂洛烙珞落酪駱亂卵欄爛蘭鸞嵐濫藍襤拉臘蠟廊朗浪狼郎來冷勞擄櫓爐盧老蘆虜路露魯
   鷺碌祿綠菉錄鹿論壟弄籠聾牢磊賂雷壘屢樓淚漏累縷陋勒肋凜凌稜綾菱陵讀拏樂諾丹寧怒率異北磻便復不泌
   數索參塞省葉說殺辰沈拾若掠略亮兩凉梁糧良諒量勵呂女廬旅濾礪閭驪麗黎力曆歷轢年憐戀撚漣煉璉秊練聯
   輦蓮連鍊列劣咽烈裂說廉念捻殮簾獵令囹寧嶺怜玲瑩羚聆鈴零靈領例禮醴隸惡了僚寮尿料樂燎療蓼遼龍暈阮
   劉杻柳流溜琉留硫紐類六戮陸倫崙淪輪律慄栗率隆利吏履易李梨泥理痢罹裏裡里離匿溺吝燐璘藺隣鱗麟林淋
   臨立笠粒狀炙識什茶刺切度拓糖宅洞暴輻行降見廓兀嗀 2塚 1晴 2凞猪益礼神祥福靖精羽 1蘒 1諸 2逸都 3
   飯飼館鶴郞隷侮僧免勉勤卑喝嘆器塀墨層屮悔慨憎懲敏既暑梅海渚漢煮爫琢碑社祉祈祐祖祝禍禎穀突節練縉
   繁署者臭艹艹著褐視謁謹賓贈辶逸難響頻恵𤋮舘 2並况全侀充冀勇勺喝啕喙嗢塚墳奄奔婢嬨廒廙彩徭惘慎愈
   憎慠懲戴揄搜摒敖晴朗望杖歹殺流滛滋漢瀞煮瞧爵犯猪瑱甆画瘝瘟益盛直睊着磌窱節类絛練缾者荒華蝹襁覆
   視調諸請謁諾諭謹變贈輸遲醙鉶陼難靖韛響頋頻鬒龜𢡊𢡄𣏕㮝䀘䀹𥉉𥳐𧻓齃龎 43~5d9+5b4 1~5f2+5b7 a
   ~5e9+5c1~5e9+5c2~fb49+5c1~fb49+5c2~5d0+5b7~5d0+5b8~5d0+5bc~5d1+5bc~5d2+5bc~5d3+5bc~5d4+5bc
   ~5d5+5bc~5d6+5bc 1~5d8+5bc~5d9+5bc~5da+5bc~5db+5bc~5dc+5bc 1~5de+5bc 1~5e0+5bc~5e1+5bc 1
   ~5e3+5bc~5e4+5bc 1~5e6+5bc~5e7+5bc~5e8+5bc~5e9+5bc~5ea+5bc~5d5+5b9~5d1+5bf~5db+5bf~5e4+5bf
   154b|11099+110ba 1|1109b+110ba e|110a5+110ba 82|11131+11127|11132+11127 21b|11347+1133e
   |11347+11357 16e|114b9+114ba|114b9+114b0 1|114b9+114bd fb|115b8+115af|115b9+115af 37c
   |11935+11930 b825~1d157+1d165~1d158+1d165~1d15f+1d16e~1d15f+1d16f~1d15f+1d170~1d15f+1d171
   ~1d15f+1d172 56~1d1b9+1d165~1d1ba+1d165~1d1bb+1d16e~1d1bc+1d16e~1d1bb+1d16f~1d1bc+1d16f 1263f
   丽丸乁𠄢你侮侻倂偺備僧像㒞𠘺免兔兤具𠔜㒹內再𠕋冗冤仌冬况𩇟凵刃㓟刻剆割剷㔕勇勉勤勺包匆北卉卑博
   即卽卿卿卿𠨬灰及叟𠭣叫叱吆咞吸呈周咢哶唐啓啣善善喙喫喳嗂圖嘆圗噑噴切壮城埴堍型堲報墬𡓤売壷夆多
   夢奢𡚨𡛪姬娛娧姘婦㛮㛼嬈嬾嬾𡧈寃寘寧寳𡬘寿将当尢㞁屠屮峀岍𡷤嵃𡷦嵮嵫嵼巡巢㠯巽帨帽幩㡢𢆃㡼庰庳
   庶廊𪎒廾𢌱𢌱舁弢弢㣇𣊸𦇚形彫㣣徚忍志忹悁㤺㤜悔𢛔惇慈慌慎慌慺憎憲憤憯懞懲懶成戛扝抱拔捐𢬌挽拼捨
   掃揤𢯱搢揅掩㨮摩摾撝摷㩬敏敬𣀊旣書晉㬙暑㬈㫤冒冕最暜肭䏙朗望朡杞杓𣏃㭉柺枅桒梅𣑭梎栟椔㮝楂榣槪
   檨𣚣櫛㰘次𣢧歔㱎歲殟殺殻𣪍𡴋𣫺汎𣲼沿泍汧洖派海流浩浸涅𣴞洴港湮㴳滋滇𣻑淹潮𣽞𣾎濆瀹瀞瀛㶖灊災灷
   炭𠔥煅𤉣熜𤎫爨爵牐𤘈犀犕𤜵𤠔獺王㺬玥㺸㺸瑇瑜瑱璅瓊㼛甤𤰶甾𤲒異𢆟瘐𤾡𤾸𥁄㿼䀈直𥃳𥃲𥄙𥄳眞真真睊
   䀹瞋䁆䂖𥐝硎碌磌䃣𥘦祖𥚚𥛅福秫䄯穀穊穏𥥼𥪧𥪧竮䈂𥮫篆築䈧𥲀糒䊠糨糣紀𥾆絣䌁緇縂繅䌴𦈨𦉇䍙𦋙罺𦌾
   羕翺者𦓚𦔣聠𦖨聰𣍟䏕育脃䐋脾媵𦞧𦞵𣎓𣎜舁舄辞䑫芑芋芝劳花芳芽苦𦬼若茝荣莭茣莽菧著荓菊菌菜𦰶𦵫𦳕
   䔫蓱蓳蔖𧏊蕤𦼬䕝䕡𦾱𧃒䕫虐虜虧虩蚩蚈蜎蛢蝹蜨蝫螆䗗蟡蠁䗹衠衣𧙧裗裞䘵裺㒻𧢮𧥦䚾䛇誠諭變豕𧲨貫賁
   贛起𧼯𠠄跋趼跰𠣞軔輸𨗒𨗭邔郱鄑𨜮鄛鈸鋗鋘鉼鏹鐕𨯺開䦕閷𨵷䧦雃嶲霣𩅅𩈚䩮䩶韠𩐊䪲𩒖頋頋頩𩖶飢䬳餩
   馧駂駾䯎𩬰鬒鱀鳽䳎䳭鵧𪃎䳸𪄅𪈎𪊑麻䵖黹黾鼅鼏鼖鼻𪘀").foldl addDecomposition (0, #[])).2

end MiddleEnd.Text.Normal
