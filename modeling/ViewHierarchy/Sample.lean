/-! A source text to try the viewer on. -/
namespace ViewHierarchy

def sampleLines : List String :=
  [ "struct ContentView: View \x7b",
    "    var body: some View \x7b",
    "        ZStack \x7b",
    "            Color.black",
    "                .ignoresSafeArea()",
    "            ScrollView \x7b",
    "                VStack(spacing: 20) \x7b",
    "                    TitleView()",
    "                    HeaderImageView()",
    "                    InfoSectionView(",
    "                        emoji: \"✨\",",
    "                        title: \"Overview\",",
    "                        content: \"Universal Studios Japan is a theme park in Osaka full of rides and attractions based on films and animation, drawing visitors from all over the world.\"",
    "                    )",
    "                    InfoSectionView(",
    "                        emoji: \"🏰\",",
    "                        title: \"Areas\",",
    "                        content: \"\"\"",
    "                        Super Nintendo World",
    "                        The Wizarding World of Harry Potter",
    "                        Minion Park",
    "                        Jurassic Park",
    "                        \"\"\"",
    "                    )",
    "                \x7d",
    "            \x7d",
    "            .contentMargins(10)",
    "        \x7d",
    "    \x7d",
    "\x7d",
    "",
    "struct TitleView: View \x7b",
    "    var body: some View \x7b",
    "        Text(\"Universal Studios Japan\")",
    "            .font(.system(size: 34, weight: .bold, design: .rounded))",
    "            .foregroundStyle(.white)",
    "            .shadow(radius: 5)",
    "    \x7d",
    "\x7d",
    "",
    "struct HeaderImageView: View \x7b",
    "    var body: some View \x7b",
    "        Image(.usj)",
    "            .resizable()",
    "            .scaledToFill()",
    "            .frame(minWidth: 0, maxWidth: .infinity, maxHeight: 250)",
    "            .clipShape(.rect(cornerRadius: 15))",
    "    \x7d",
    "\x7d",
    "",
    "struct InfoSectionView: View \x7b",
    "    let emoji: String",
    "    let title: String",
    "    let content: String",
    "",
    "    var body: some View \x7b",
    "        VStack(alignment: .leading, spacing: 10) \x7b",
    "            HStack \x7b",
    "                Text(emoji)",
    "                    .font(.title2)",
    "                Text(title)",
    "                    .font(.title2)",
    "                    .fontWeight(.semibold)",
    "                    .foregroundStyle(.blue)",
    "            \x7d",
    "            Text(content)",
    "                .font(.body)",
    "                .foregroundStyle(.gray)",
    "        \x7d",
    "        .padding()",
    "        .frame(maxWidth: .infinity, alignment: .leading)",
    "        .background(.white.opacity(0.9))",
    "        .clipShape(.rect(cornerRadius: 15))",
    "        .shadow(color: .gray.opacity(0.3), radius: 10, y: 5)",
    "    \x7d",
    "\x7d" ]

def sampleSource : String := String.join (sampleLines.map (· ++ "\n"))

end ViewHierarchy
